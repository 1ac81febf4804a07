import GwsMigrator.MessageImport

/-! What one call of `import_message` leaves in the mailbox, whatever Graph answers. -/
namespace GwsMigrator.MessageImport
open Dialogue Program

/-- A message in the mailbox: the id it was given, the call that created it, and its attachments
by name and content. -/
structure ImportedMessage where
  id : String
  origin : ImportCall
  attachments : List (String × Bytes)

/-- An upload that is under way. -/
structure UploadSession where
  url : String
  messageId : String
  name : String
  size : ℕ
  received : Bytes

/-- The calls so far with their answers, newest first, and what they have made. -/
structure Mailbox where
  log : Log ImportCall.Ans := []
  messages : List ImportedMessage := []
  sessions : List UploadSession := []

namespace Mailbox

def attach (messages : List ImportedMessage) (messageId : String) (attachment : String × Bytes) :
    List ImportedMessage :=
  messages.map (fun m =>
    if m.id = messageId then { m with attachments := m.attachments ++ [attachment] } else m)

/-- A chunk for the newest session with its URL. The last one makes it an attachment. -/
def receive (box : Mailbox) (url : String) (chunk : Bytes) : Mailbox :=
  match box.sessions.find? (fun session => session.url = url) with
  | none => box
  | some session =>
    let received := session.received ++ chunk
    let others := box.sessions.eraseP (fun session => session.url = url)
    if received.length < session.size then
      { box with sessions := { session with received := received } :: others }
    else
      { box with
        sessions := others
        messages := attach box.messages session.messageId (session.name, received) }

/-- What a call does that succeeds. -/
def accept (box : Mailbox) : (call : ImportCall) → call.Result → Mailbox
  | .postMime content, id =>
    { box with messages := box.messages ++ [⟨id, .postMime content, []⟩] }
  | .postJson message, id =>
    { box with messages := box.messages ++
        [⟨id, .postJson message, message.attachments.map (fun a => (a.name, a.content))⟩] }
  | .postAttachment messageId a, _ =>
    { box with messages := attach box.messages messageId (a.name, a.data) }
  | .createUploadSession messageId a size, url =>
    { box with sessions := ⟨url, messageId, a.name, size, []⟩ :: box.sessions }
  | .putRaw url chunk _ _ _, _ => box.receive url chunk

/-- A call with its answer. One that fails has no effect. -/
def record (box : Mailbox) (call : ImportCall) (answer : call.Ans) : Mailbox :=
  { (match answer with
      | .ok result => box.accept call result
      | .error _ => box) with log := ⟨call, answer⟩ :: box.log }

/-- A call answered by a script. -/
def serve (script : Oracle ImportCall.Ans) (call : ImportCall) (box : Mailbox) :
    call.Ans × Mailbox :=
  (script box.log call, box.record call (script box.log call))

end Mailbox

/-- The calls that are made for a message that has been created. -/
def ImportCall.forAttachment : ImportCall → Bool
  | .postMime _ => false
  | .postJson _ => false
  | .postAttachment .. => true
  | .createUploadSession .. => true
  | .putRaw .. => true

/-- Whether a call failed that was to add an attachment. -/
def attachmentFailed (log : Log ImportCall.Ans) : Bool :=
  log.any (fun event => event.call.forAttachment && event.answer.isOk = false)

section
variable (pkg : EmailPackage) (script : Oracle ImportCall.Ans)

/-- One call of `import_message` on a mailbox without the message. -/
def importRun (mode : ImportMode) (rawMime : Bytes) (flags : ImportFlags) :
    Except Exc String × Mailbox :=
  (importMessage pkg mode rawMime flags).run (Mailbox.serve script) {}

/-- The attachments extracted for a JSON create. -/
def jsonAttachments (rawMime : Bytes) : List (String × Bytes) :=
  match pkg.parse (normalizeCrlf rawMime) with
  | .error _ => []
  | .ok msg =>
    (graphBodyAndAttachments pkg.serializer msg.root).2.map (fun a => (a.name, a.content))

/-- What is posted for a MIME message, and the attachments taken out of it before. -/
def mimeParts (rawMime : Bytes) : Except String (Bytes × List (String × Bytes)) :=
  if rawMime.length ≤ maxMimeSinglePost then .ok (normalizeCrlf rawMime, [])
  else (splitMessage pkg rawMime).map
    (fun split => (normalizeCrlf split.1, split.2.map (fun a => (a.name, a.data))))

/-- A message has every attachment extracted from its source once: from the message as it is or
cleaned for a MIME create. -/
def Complete (rawMime : Bytes) (m : ImportedMessage) : Prop :=
  match m.origin with
  | .postJson _ => m.attachments = jsonAttachments pkg rawMime
  | .postMime content =>
    ∃ source, (source = normalizeCrlf rawMime ∨
        cleanedMime pkg (normalizeCrlf rawMime) = some source) ∧
      mimeParts pkg source = .ok (content, m.attachments)
  | _ => False

/-- One message that has all of its attachments when an id is returned, and none when the call
raises. -/
def AllOrNothing (rawMime : Bytes) (result : Except Exc String) (box : Mailbox) : Prop :=
  match result with
  | .ok id => ∃ m, box.messages = [m] ∧ m.id = id ∧ Complete pkg rawMime m
  | .error _ => box.messages = []

end

section
variable (script : Oracle ImportCall.Ans)

theorem length_attach (messages : List ImportedMessage) (messageId : String)
    (attachment : String × Bytes) :
    (Mailbox.attach messages messageId attachment).length = messages.length := by
  rw [Mailbox.attach, List.length_map]

/-- Attachments added to a message: without a failed call all of them are, and after a failed
call nothing else has happened to the messages. -/
def Adds (messageId : String) (added : List (String × Bytes)) (box : Mailbox)
    (out : Except Exc Unit × Mailbox) : Prop :=
  match out.1 with
  | .ok _ => attachmentFailed out.2.log = attachmentFailed box.log ∧
      out.2.messages = added.foldl (fun messages a => Mailbox.attach messages messageId a)
        box.messages
  | .error _ => attachmentFailed out.2.log = true ∧ out.2.messages.length = box.messages.length

theorem Adds.of_eq {messageId : String} {added : List (String × Bytes)} {box box' : Mailbox}
    {out : Except Exc Unit × Mailbox} (h : Adds messageId added box' out)
    (hlog : attachmentFailed box'.log = attachmentFailed box.log)
    (hmessages : box'.messages = box.messages) : Adds messageId added box out := by
  rw [Adds] at h ⊢
  rw [← hlog, ← hmessages]
  exact h

/-- The chunks from an offset on complete the attachment of their session. -/
theorem uploadFrom_adds {url messageId name : String} {data : Bytes} (offset : ℕ) (box : Mailbox)
    (hsession : box.sessions.find? (fun session => session.url = url) =
      some ⟨url, messageId, name, data.length, data.take offset⟩)
    (hoffset : offset < data.length) :
    Adds messageId [(name, data)] box
      ((uploadFrom url data offset).run (Mailbox.serve script) box) := by
  induction hn : data.length - offset using Nat.strong_induction_on generalizing offset box with
  | _ n ih =>
    have hchunk : 0 < attachmentChunk := by decide
    rw [uploadFrom, if_pos hoffset]
    dsimp only
    generalize hstop : min (offset + attachmentChunk) data.length = stop
    have hwhole : data.take offset ++ (data.take stop).drop offset = data.take stop := by
      have hbefore : data.take offset = (data.take stop).take offset := by
        rw [List.take_take, Nat.min_eq_left (by omega)]
      rw [hbefore, List.take_append_drop]
    rw [perform_bind, run_request]
    simp only [Mailbox.serve]
    generalize script box.log (.putRaw url ((data.take stop).drop offset) offset stop
      data.length) = answer
    cases answer with
    | error e => exact ⟨rfl, rfl⟩
    | ok _ =>
      have hsize : (data.take stop).length = stop := by
        rw [List.length_take]
        omega
      by_cases hlast : stop < data.length
      · have hreceive : box.receive url ((data.take stop).drop offset) =
            { box with sessions := ⟨url, messageId, name, data.length, data.take stop⟩ ::
                box.sessions.eraseP (fun session => session.url = url) } := by
          simp only [Mailbox.receive, hsession, hwhole, hsize, if_pos hlast]
        have hnext := ih (data.length - stop) (by omega) stop
          (box.record (.putRaw url ((data.take stop).drop offset) offset stop data.length)
            (.ok ())) (by simp [Mailbox.record, Mailbox.accept, hreceive]) hlast rfl
        exact hnext.of_eq rfl (by simp [Mailbox.record, Mailbox.accept, hreceive])
      · have hreceive : box.receive url ((data.take stop).drop offset) =
            { box with
              sessions := box.sessions.eraseP (fun session => session.url = url)
              messages := Mailbox.attach box.messages messageId (name, data) } := by
          have hall : data.take stop = data := List.take_of_length_le (by omega)
          simp only [Mailbox.receive, hsession, hwhole, hsize, if_neg hlast]
          rw [hall]
        rw [uploadFrom, if_neg hlast]
        refine ⟨rfl, ?_⟩
        simp [Mailbox.record, Mailbox.accept, hreceive]

theorem addAttachment_adds (messageId : String) (a : NewAttachment) (box : Mailbox) :
    Adds messageId [(a.name, a.data)] box
      ((addAttachment messageId a).run (Mailbox.serve script) box) := by
  rw [addAttachment]
  by_cases hsmall : a.data.length ≤ largeAttachmentThreshold
  · rw [if_pos hsmall, run_perform]
    simp only [Mailbox.serve]
    generalize script box.log _ = answer
    cases answer with
    | error e => exact ⟨rfl, rfl⟩
    | ok _ => exact ⟨rfl, rfl⟩
  · rw [if_neg hsmall, perform_bind, run_request]
    simp only [Mailbox.serve]
    generalize script box.log _ = answer
    cases answer with
    | error e => exact ⟨rfl, rfl⟩
    | ok url =>
      have hpos : 0 < a.data.length := by
        have hthreshold : largeAttachmentThreshold = 3145728 := by decide
        omega
      apply Adds.of_eq (@uploadFrom_adds script _ _ a.name _ 0 _ _ hpos)
      · rfl
      · rfl
      · simp [Mailbox.record, Mailbox.accept]

theorem addAttachments_adds (messageId : String) (attachments : List NewAttachment)
    (box : Mailbox) :
    Adds messageId (attachments.map (fun a => (a.name, a.data))) box
      ((addAttachments messageId attachments).run (Mailbox.serve script) box) := by
  induction attachments generalizing box with
  | nil => exact ⟨rfl, rfl⟩
  | cons a rest ih =>
    have hfirst := addAttachment_adds script messageId a box
    rw [addAttachments, run_bind]
    cases hrun : (addAttachment messageId a).run (Mailbox.serve script) box with
    | mk result box₁ =>
      rw [hrun] at hfirst
      cases result with
      | error e => exact hfirst
      | ok _ =>
        obtain ⟨hlog, hmessages⟩ := hfirst
        have hrest := ih box₁
        rw [Adds] at hrest ⊢
        rw [hlog, hmessages] at hrest
        cases hdone : (addAttachments messageId rest).run (Mailbox.serve script) box₁ with
        | mk result box₂ =>
          simp only [hdone] at hrest ⊢
          cases result with
          | ok _ => exact hrest
          | error e =>
            refine ⟨hrest.1, ?_⟩
            rw [hrest.2]
            exact length_attach _ _ _

/-- Nothing is there, or a message is there to which an attachment could not be added. -/
def Started (box : Mailbox) : Prop :=
  attachmentFailed box.log = false ∧ box.messages = [] ∨
    attachmentFailed box.log = true ∧ box.messages ≠ []

/-- A create that fails leaves the messages as they are, and one that succeeds adds one. -/
def Creates (fresh : ImportedMessage → Prop) (box : Mailbox)
    (out : Except Exc String × Mailbox) : Prop :=
  attachmentFailed out.2.log = attachmentFailed box.log ∧
    match out.1 with
    | .ok id => ∃ m, out.2.messages = box.messages ++ [m] ∧ m.id = id ∧ fresh m
    | .error _ => out.2.messages = box.messages

/-- How an attempt ends: with the one message complete, or with one too many, or so that the next
attempt can start. -/
def Ends (complete : ImportedMessage → Prop) (out : Except Exc String × Mailbox) : Prop :=
  match out.1 with
  | .ok id =>
    attachmentFailed out.2.log = false ∧ (∃ m, out.2.messages = [m] ∧ m.id = id ∧ complete m) ∨
      attachmentFailed out.2.log = true ∧ 2 ≤ out.2.messages.length
  | .error _ => Started out.2

theorem length_foldl_attach (messageId : String) (added : List (String × Bytes))
    (messages : List ImportedMessage) :
    (added.foldl (fun messages a => Mailbox.attach messages messageId a) messages).length =
      messages.length := by
  induction added generalizing messages with
  | nil => rfl
  | cons a added ih => rw [List.foldl_cons, ih, length_attach]

theorem foldl_attach_singleton (added : List (String × Bytes)) (m : ImportedMessage) :
    added.foldl (fun messages a => Mailbox.attach messages m.id a) [m] =
      [{ m with attachments := m.attachments ++ added }] := by
  induction added generalizing m with
  | nil => simp
  | cons a added ih =>
    have hone : Mailbox.attach [m] m.id a = [{ m with attachments := m.attachments ++ [a] }] := by
      simp [Mailbox.attach]
    rw [List.foldl_cons, hone]
    have hrest := ih { m with attachments := m.attachments ++ [a] }
    rw [List.append_assoc] at hrest
    exact hrest

/-- An attempt that leaves things as they were. -/
theorem Started.ends_error {complete : ImportedMessage → Prop} {box box' : Mailbox} {e : Exc}
    (hbox : Started box) (hlog : attachmentFailed box'.log = attachmentFailed box.log)
    (hmessages : box'.messages = box.messages) : Ends complete (.error e, box') := by
  change Started box'
  rw [Started, hlog, hmessages]
  exact hbox

/-- An attempt that adds one message. -/
theorem Started.ends_ok {complete : ImportedMessage → Prop} {box box' : Mailbox} {id : String}
    (hbox : Started box) (hlog : attachmentFailed box'.log = attachmentFailed box.log)
    (hlength : box'.messages.length = box.messages.length + 1)
    (hone : box.messages = [] → ∃ m, box'.messages = [m] ∧ m.id = id ∧ complete m) :
    Ends complete (.ok id, box') := by
  rcases hbox with ⟨hclean, hnone⟩ | ⟨hspoilt, hsome⟩
  · exact Or.inl ⟨hlog.trans hclean, hone hnone⟩
  · -- an earlier attempt has left a message behind
    have hpos := List.length_pos_of_ne_nil hsome
    refine Or.inr ⟨hlog.trans hspoilt, ?_⟩
    change 2 ≤ box'.messages.length
    omega

/-- A message created and its attachments added. -/
theorem createWith_ends {fresh complete : ImportedMessage → Prop}
    {create : ImportProgram (Except Exc String)} {attachments : List NewAttachment}
    {box : Mailbox} (hbox : Started box)
    (hcreate : Creates fresh box (create.run (Mailbox.serve script) box))
    (hcomplete : ∀ m, fresh m → complete { m with
      attachments := m.attachments ++ attachments.map (fun a => (a.name, a.data)) }) :
    Ends complete ((createWith create attachments).run (Mailbox.serve script) box) := by
  rw [createWith, run_bind]
  cases hrun : create.run (Mailbox.serve script) box with
  | mk result box₁ =>
    rw [hrun] at hcreate
    obtain ⟨hlog, hmade⟩ := hcreate
    cases result with
    | error e => exact hbox.ends_error hlog hmade
    | ok id =>
      obtain ⟨m, hmessages, rfl, hfresh⟩ := hmade
      have hadds := addAttachments_adds script m.id attachments box₁
      simp only [run_bind]
      cases hadded : (addAttachments m.id attachments).run (Mailbox.serve script) box₁ with
      | mk result box₂ =>
        rw [hadded] at hadds
        cases result with
        | error e =>
          -- the message is there, without all of its attachments
          obtain ⟨hfailed, hlength⟩ := hadds
          refine Or.inr ⟨hfailed, ?_⟩
          apply List.ne_nil_of_length_pos
          change 0 < box₂.messages.length
          rw [hlength, hmessages]
          simp
        | ok _ =>
          obtain ⟨hfailed, hall⟩ := hadds
          rw [hmessages] at hall
          refine hbox.ends_ok (hfailed.trans hlog) ?_ ?_
          · rw [hall, length_foldl_attach, List.length_append, List.length_singleton]
          · intro hnone
            rw [hnone, List.nil_append, foldl_attach_singleton] at hall
            exact ⟨_, hall, rfl, hcomplete m hfresh⟩

/-- A message created without attachments to add. -/
theorem Creates.ends {fresh complete : ImportedMessage → Prop} {box : Mailbox}
    {out : Except Exc String × Mailbox} (h : Creates fresh box out) (hbox : Started box)
    (hcomplete : ∀ m, fresh m → complete m) : Ends complete out := by
  obtain ⟨result, box₁⟩ := out
  obtain ⟨hlog, hmade⟩ := h
  cases result with
  | error e => exact hbox.ends_error hlog hmade
  | ok id =>
    obtain ⟨m, hmessages, rfl, hfresh⟩ := hmade
    refine hbox.ends_ok hlog ?_ ?_
    · rw [hmessages, List.length_append, List.length_singleton]
    · intro hnone
      rw [hnone, List.nil_append] at hmessages
      exact ⟨m, hmessages, rfl, hcomplete m hfresh⟩

/-- A message as its MIME create makes it. -/
def MimeCreated (content : Bytes) (m : ImportedMessage) : Prop :=
  m.origin = .postMime content ∧ m.attachments = []

/-- A message as a JSON create makes it, with these attachments. -/
def JsonCreated (attachments : List (String × Bytes)) (m : ImportedMessage) : Prop :=
  (∃ message, m.origin = .postJson message) ∧ m.attachments = attachments

theorem postMime_creates (rawMime : Bytes) (box : Mailbox) :
    Creates (MimeCreated (normalizeCrlf rawMime)) box
      ((postMime rawMime).run (Mailbox.serve script) box) := by
  rw [postMime, run_perform]
  simp only [Mailbox.serve]
  generalize script box.log _ = answer
  cases answer with
  | error e => exact ⟨rfl, rfl⟩
  | ok id => exact ⟨rfl, _, rfl, rfl, rfl, rfl⟩

theorem postJson_creates (message : JsonMessage) (box : Mailbox) :
    Creates (JsonCreated (message.attachments.map (fun a => (a.name, a.content)))) box
      ((perform (ImportCall.postJson message)).run (Mailbox.serve script) box) := by
  rw [run_perform]
  simp only [Mailbox.serve]
  generalize script box.log _ = answer
  cases answer with
  | error e => exact ⟨rfl, rfl⟩
  | ok id => exact ⟨rfl, _, rfl, rfl, ⟨message, rfl⟩, rfl⟩

/-- The second create is made only when the first has failed. -/
theorem postJsonMessage_creates {draft : Bool → JsonMessage} {attachments : List (String × Bytes)}
    (hdraft : ∀ fidelity,
      (draft fidelity).attachments.map (fun a => (a.name, a.content)) = attachments)
    (box : Mailbox) :
    Creates (JsonCreated attachments) box
      ((postJsonMessage draft).run (Mailbox.serve script) box) := by
  have hfirst := postJson_creates script (draft true) box
  rw [hdraft] at hfirst
  rw [postJsonMessage, run_bind]
  cases hrun : (perform (ImportCall.postJson (draft true))).run (Mailbox.serve script) box with
  | mk result box₁ =>
    rw [hrun] at hfirst
    split
    next id heq =>
      cases heq
      exact hfirst
    next text heq =>
      cases heq
      obtain ⟨hlog, hmessages⟩ := hfirst
      have hsecond := postJson_creates script (draft false) box₁
      rw [hdraft, Creates, hlog, hmessages] at hsecond
      exact hsecond
    next e _ heq =>
      cases heq
      exact hfirst

end

section
variable (pkg : EmailPackage) (script : Oracle ImportCall.Ans)

/-- Every attachment of a JSON create goes with the request, or every one is added after it. -/
theorem inline_or_added (attachments : List GraphAttachment) :
    (inlineAttachments attachments).map (fun a => (a.name, a.content)) ++
      (if attachments ≠ [] ∧ inlineAttachments attachments = [] then
        attachments.map GraphAttachment.asNew else []).map (fun a => (a.name, a.data)) =
      attachments.map (fun a => (a.name, a.content)) := by
  rw [inlineAttachments]
  split
  · by_cases h : attachments = [] <;> simp [h]
  · by_cases h : attachments = []
    · simp [h]
    · simp [h, GraphAttachment.asNew, Function.comp_def]

theorem importJsonMessage_ends {rawMime : Bytes} {flags : ImportFlags} {box : Mailbox}
    (hbox : Started box) :
    Ends (JsonCreated (jsonAttachments pkg rawMime))
      ((importJsonMessage pkg rawMime flags).run (Mailbox.serve script) box) := by
  rw [importJsonMessage]
  split
  next => exact hbox
  next =>
    rw [jsonAttachments]
    cases hparse : pkg.parse (normalizeCrlf rawMime) with
    | error text => exact hbox
    | ok msg =>
      dsimp only
      cases pkg.unreadable msg with
      | some text => exact hbox
      | none =>
        refine createWith_ends script hbox
          (@postJsonMessage_creates script _
            ((inlineAttachments (graphBodyAndAttachments pkg.serializer msg.root).2).map
              (fun a => (a.name, a.content))) ?_ box) ?_
        · intro fidelity
          cases fidelity <;> rfl
        · rintro m ⟨horigin, hattachments⟩
          refine ⟨horigin, ?_⟩
          change m.attachments ++ _ = _
          rw [hattachments]
          exact inline_or_added _

theorem importMime_ends {source : Bytes} {box : Mailbox} (hbox : Started box) :
    Ends (fun m => ∃ content, m.origin = .postMime content ∧
        mimeParts pkg source = .ok (content, m.attachments))
      ((importMime pkg source).run (Mailbox.serve script) box) := by
  rw [importMime]
  split
  next hsmall =>
    refine (postMime_creates script source box).ends hbox ?_
    rintro m ⟨horigin, hattachments⟩
    exact ⟨_, horigin, by rw [mimeParts, if_pos hsmall, hattachments]⟩
  next hlarge =>
    cases hsplit : splitMessage pkg source with
    | error text => exact hbox
    | ok split =>
      refine createWith_ends script hbox (postMime_creates script split.1 box) ?_
      rintro m ⟨horigin, hattachments⟩
      refine ⟨_, horigin, ?_⟩
      rw [mimeParts, if_neg hlarge, hsplit, hattachments]
      simp [Except.map, Extracted.asNew, Function.comp_def]

theorem Ends.mono {complete complete' : ImportedMessage → Prop}
    {out : Except Exc String × Mailbox} (h : Ends complete out)
    (himp : ∀ m, complete m → complete' m) : Ends complete' out := by
  obtain ⟨result, box⟩ := out
  cases result with
  | error e => exact h
  | ok id =>
    rcases h with ⟨hclean, m, hmessages, hid, hm⟩ | h
    · exact Or.inl ⟨hclean, m, hmessages, hid, himp m hm⟩
    · exact Or.inr h

/-- The fallback to JSON in MIME mode takes the attachments of the message itself. -/
theorem viaJson_ends {rawMime : Bytes} {flags : ImportFlags} {box : Mailbox} (hbox : Started box)
    (source : Bytes) (hsource : normalizeCrlf source = normalizeCrlf rawMime) :
    Ends (Complete pkg rawMime)
      ((importJsonMessage pkg source flags).run (Mailbox.serve script) box) := by
  refine (importJsonMessage_ends pkg script hbox).mono ?_
  rintro m ⟨⟨message, horigin⟩, hattachments⟩
  rw [Complete, horigin, hattachments, jsonAttachments, jsonAttachments, hsource]

theorem viaMime_ends {rawMime source : Bytes} {box : Mailbox} (hbox : Started box)
    (hsource : source = normalizeCrlf rawMime ∨
      cleanedMime pkg (normalizeCrlf rawMime) = some source) :
    Ends (Complete pkg rawMime) ((importMime pkg source).run (Mailbox.serve script) box) := by
  refine (importMime_ends pkg script hbox).mono ?_
  rintro m ⟨content, horigin, hparts⟩
  rw [Complete, horigin]
  exact ⟨source, hsource, hparts⟩

/-- The three attempts of a MIME import, each from where the last has left the mailbox. -/
theorem importMimeMessage_ends {rawMime : Bytes} {box : Mailbox} (hbox : Started box) :
    Ends (Complete pkg rawMime)
      ((importMimeMessage pkg rawMime).run (Mailbox.serve script) box) := by
  rw [importMimeMessage]
  split
  next => exact hbox
  next =>
    dsimp only
    rw [run_bind]
    have hsource : normalizeCrlf rawMime = normalizeCrlf rawMime ∨
        cleanedMime pkg (normalizeCrlf rawMime) = some (normalizeCrlf rawMime) := Or.inl rfl
    have hfirst := viaMime_ends pkg script hbox hsource
    cases hrun : (importMime pkg (normalizeCrlf rawMime)).run (Mailbox.serve script) box with
    | mk result box₁ =>
      rw [hrun] at hfirst
      cases result with
      | ok id => exact hfirst
      | error e =>
        have hjson : ∀ {box' : Mailbox}, Started box' → Ends (Complete pkg rawMime)
            ((importJsonMessage pkg (normalizeCrlf rawMime) {}).run (Mailbox.serve script) box') :=
          fun h => viaJson_ends pkg script h _ (normalizeCrlf_normalizeCrlf rawMime)
        dsimp only
        split
        next => exact hfirst
        next =>
          cases hcleaned : cleanedMime pkg (normalizeCrlf rawMime) with
          | none => exact hjson hfirst
          | some cleaned =>
            dsimp only
            split
            next => exact hjson hfirst
            next =>
              have hsource : cleaned = normalizeCrlf rawMime ∨
                  cleanedMime pkg (normalizeCrlf rawMime) = some cleaned := Or.inr hcleaned
              have hsecond := viaMime_ends pkg script hfirst hsource
              rw [run_bind]
              cases hrun : (importMime pkg cleaned).run (Mailbox.serve script) box₁ with
              | mk result box₂ =>
                rw [hrun] at hsecond
                cases result with
                | ok id => exact hsecond
                | error e =>
                  dsimp only
                  split
                  next => exact hsecond
                  next => exact hjson hsecond

theorem importRun_ends (mode : ImportMode) (rawMime : Bytes) (flags : ImportFlags) :
    Ends (Complete pkg rawMime) (importRun pkg script mode rawMime flags) := by
  have hempty : Started {} := Or.inl ⟨rfl, rfl⟩
  cases mode with
  | json => exact viaJson_ends pkg script hempty rawMime rfl
  | mime => exact importMimeMessage_ends pkg script hempty

/-- One call of `import_message` is all-or-nothing exactly when no call fails that was to add an
attachment to a message already created. -/
theorem allOrNothing_iff (mode : ImportMode) (rawMime : Bytes) (flags : ImportFlags) :
    AllOrNothing pkg rawMime (importRun pkg script mode rawMime flags).1
        (importRun pkg script mode rawMime flags).2 ↔
      attachmentFailed (importRun pkg script mode rawMime flags).2.log = false := by
  have hends := importRun_ends pkg script mode rawMime flags
  cases hrun : importRun pkg script mode rawMime flags with
  | mk result box =>
    rw [hrun] at hends
    cases result with
    | ok id =>
      rcases hends with ⟨hclean, hone⟩ | ⟨hspoilt, htwo⟩
      · exact iff_of_true hone hclean
      · refine iff_of_false ?_ (by simp [hspoilt])
        rintro ⟨m, hmessages, -⟩
        rw [hmessages] at htwo
        exact absurd htwo (by simp)
    | error e =>
      rcases hends with ⟨hclean, hnone⟩ | ⟨hspoilt, hsome⟩
      · exact iff_of_true hnone hclean
      · exact iff_of_false hsome (by simp [hspoilt])

end

/-- The header of a message that is one file. -/
def fileHeader : Bytes :=
  ("Content-Type: application/octet-stream\r\nContent-Disposition: attachment; " ++
    "filename=\"scan.bin\"\r\n\r\n").toList.map (fun c => UInt8.ofNat c.toNat)

def fileLeaf (data : Bytes) : MimeLeaf where
  contentType := ⟨"application/octet-stream", by decide⟩
  disposition := some "attachment"
  filename := some "scan.bin"
  contentId := none
  payload := data
  text := ""

/-- What the email package makes of it. -/
def filePackage (data : Bytes) : EmailPackage where
  serializer := ⟨fun _ => none, fun _ => none⟩
  parse _ := .ok ⟨{}, .leaf (fileLeaf data)⟩
  unreadable _ := none
  asBytes _ := .ok (fileHeader ++ data)
  parseSmtp _ := none
  smtpBytes _ := none

/-- Messages are created and attachments refused. -/
def refusesAttachments : Oracle ImportCall.Ans := fun _ call =>
  match call with
  | .postMime _ => .ok "AAMk1"
  | .postJson _ => .ok "AAMk1"
  | .postAttachment .. => .error (.http 413 "Request Entity Too Large")
  | .createUploadSession .. => .error (.http 413 "Request Entity Too Large")
  | .putRaw .. => .error (.http 413 "Request Entity Too Large")

/-- A file that is not sent with the create request. -/
theorem refused_file {data : Bytes} (hinline : maxInlineAttachTotal < base64Length data)
    (hsmall : data.length ≤ largeAttachmentThreshold) :
    ¬ AllOrNothing (filePackage data) (fileHeader ++ data)
      (importRun (filePackage data) refusesAttachments .json (fileHeader ++ data) {}).1
      (importRun (filePackage data) refusesAttachments .json (fileHeader ++ data) {}).2 := by
  have hraw : fileHeader ++ data ≠ [] := List.append_ne_nil_of_left_ne_nil (by decide) data
  have hlate : inlineAttachments [leafAttachment (fileLeaf data)] = [] := by
    rw [inlineAttachments, if_neg]
    simpa [leafAttachment, fileLeaf] using hinline
  have hparts : graphBodyAndAttachments (filePackage data).serializer (.leaf (fileLeaf data)) =
      (⟨"text", joinTexts [], []⟩, [leafAttachment (fileLeaf data)]) := rfl
  intro h
  rw [importRun, importMessage] at h
  have hparse : (filePackage data).parse (normalizeCrlf (fileHeader ++ data)) =
      .ok ⟨{}, .leaf (fileLeaf data)⟩ := rfl
  have hread : (filePackage data).unreadable ⟨{}, .leaf (fileLeaf data)⟩ = none := rfl
  simp only [importJsonMessage, if_neg hraw, hparse, hread, hparts, hlate] at h
  have hadd : ∀ id, addAttachment id (GraphAttachment.asNew (leafAttachment (fileLeaf data))) =
      perform (ImportCall.postAttachment id
        (GraphAttachment.asNew (leafAttachment (fileLeaf data))).sent) := by
    intro id
    exact if_pos hsmall
  simp [createWith, postJsonMessage, Mailbox.serve, refusesAttachments, addAttachments, hadd,
    Mailbox.record, Mailbox.accept] at h
  cases h

/-- A message of two megabytes is created, its file refused, and the call raises. -/
theorem refused_file_leaves_message :
    ¬ ∀ (pkg : EmailPackage) (script : Oracle ImportCall.Ans) (mode : ImportMode)
      (rawMime : Bytes) (flags : ImportFlags),
      AllOrNothing pkg rawMime (importRun pkg script mode rawMime flags).1
        (importRun pkg script mode rawMime flags).2 := by
  intro h
  refine @refused_file (List.replicate (2 * 1024 * 1024) 65) ?_ ?_ (h _ _ _ _ _)
  · rw [base64Length, List.length_replicate]
    decide
  · rw [List.length_replicate]
    decide

end GwsMigrator.MessageImport
