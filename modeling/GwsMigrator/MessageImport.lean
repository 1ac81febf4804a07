import GwsMigrator.HeaderText
import GwsMigrator.JsonBody
import GwsMigrator.Programs
import GwsMigrator.SplitAttachments
import Mathlib.Algebra.GroupWithZero.Nat

/-! `microsoft/mail.py: import_message` as the calls it makes, one by one. -/
namespace GwsMigrator.MessageImport
open Program TextEdits

/-- What is read of the headers of a parsed message: addresses as name and address, and the
dates that `_parse_internet_date` and `_received_date` find. -/
structure MessageHeaders where
  subject : Option String := none
  toAddresses : List (String × String) := []
  ccAddresses : List (String × String) := []
  bccAddresses : List (String × String) := []
  fromAddresses : List (String × String) := []
  senderAddresses : List (String × String) := []
  replyToAddresses : List (String × String) := []
  messageId : Option String := none
  sent : Option String := none
  received : Option String := none

structure ParsedMessage where
  headers : MessageHeaders
  root : MimePart

/-- A message parsed with the SMTP policy: its headers, and what is behind them. -/
structure SmtpMessage where
  headers : List (String × String)
  rest : Bytes

/-- What the import uses of the email package. Parsing, reading the contents and the headers, and
serializing may raise. -/
structure EmailPackage where
  serializer : Serializer
  parse : Bytes → Except String ParsedMessage
  unreadable : ParsedMessage → Option String
  asBytes : ParsedMessage → Except String Bytes
  parseSmtp : Bytes → Option SmtpMessage
  smtpBytes : SmtpMessage → Option Bytes

/-- The keyword arguments of `import_message`, its mode apart. -/
structure ImportFlags where
  isRead : Bool := true
  isFlagged : Bool := false
  categories : List String := []

structure Recipient where
  address : String
  name : Option String

/-- The JSON of a create request. -/
structure JsonMessage where
  subject : String
  body : MessageBody
  toRecipients : List Recipient
  ccRecipients : List Recipient
  bccRecipients : List Recipient
  isRead : Bool
  extendedProperties : List (String × String)
  flagged : Bool
  categories : List String
  attachments : List GraphAttachment
  fromRecipient : Option Recipient := none
  sender : Option Recipient := none
  replyTo : List Recipient := []
  internetMessageId : Option String := none

/-- The arguments of `_add_attachment` behind the message id. -/
structure NewAttachment where
  name : String
  contentType : String
  data : Bytes
  isInline : Bool := false
  contentId : Option String := none

/-- The calls to Graph, with what they send. A chunk goes to the URL of its session. -/
inductive ImportCall where
  | postMime (content : Bytes)
  | postJson (message : JsonMessage)
  | postAttachment (messageId : String) (attachment : NewAttachment)
  | createUploadSession (messageId : String) (attachment : NewAttachment) (size : ℕ)
  | putRaw (uploadUrl : String) (chunk : Bytes) (offset stop size : ℕ)

/-- A create call returns the id of the message, and a session has its URL. -/
abbrev ImportCall.Result : ImportCall → Type
  | .postMime _ => String
  | .postJson _ => String
  | .postAttachment .. => Unit
  | .createUploadSession .. => String
  | .putRaw .. => Unit

abbrev ImportCall.Ans (c : ImportCall) : Type := Except Exc c.Result

abbrev ImportProgram := Program ImportCall.Ans

/-- `_MAX_MIME_SINGLE_POST`. -/
def maxMimeSinglePost : ℕ := 3 * 1024 * 1024

/-- `_LARGE_ATTACHMENT_THRESHOLD`. -/
def largeAttachmentThreshold : ℕ := 3 * 1024 * 1024

/-- `_ATTACHMENT_CHUNK`. -/
def attachmentChunk : ℕ := 10 * 320 * 1024

/-- `_MAX_INLINE_ATTACH_TOTAL`. -/
def maxInlineAttachTotal : ℕ := 2 * 1024 * 1024

/-- `len(base64.b64encode(data))`. -/
def base64Length (data : Bytes) : ℕ := 4 * ((data.length + 2) / 3)

/-- `_graph_recipients`. -/
def graphRecipients (addresses : List (String × String)) : List Recipient :=
  (addresses.filter (fun a => a.2 ≠ "" ∧ '@' ∈ a.2.toList)).map
    (fun a => ⟨a.2, if a.1 = "" then none else some a.1⟩)

/-- `_build_json_message`. -/
def buildJsonMessage (msg : ParsedMessage) (rawMime : Bytes) (body : MessageBody)
    (attachments : List GraphAttachment) (flags : ImportFlags) (fidelity : Bool) : JsonMessage :=
  let h := msg.headers
  let message : JsonMessage :=
    { subject := textOr h.subject ""
      body := body
      toRecipients := graphRecipients h.toAddresses
      ccRecipients := graphRecipients h.ccAddresses
      bccRecipients := graphRecipients h.bccAddresses
      isRead := flags.isRead
      extendedProperties := extendedProperties h.sent h.received rawMime flags.isRead fidelity
      flagged := flags.isFlagged
      categories := flags.categories
      attachments := attachments }
  if fidelity then
    { message with
      fromRecipient := (graphRecipients h.fromAddresses).head?
      sender := (graphRecipients h.senderAddresses).head?
      replyTo := graphRecipients h.replyToAddresses
      internetMessageId := h.messageId.bind (fun id =>
        if id = "" then none else some (String.ofList (strip isBlank id.toList))) }
  else message

/-- The attachment of a create request as `_add_attachment` gets it. -/
def GraphAttachment.asNew (a : GraphAttachment) : NewAttachment where
  name := a.name
  contentType := a.contentType
  data := a.content
  isInline := a.isInline
  contentId := a.contentId.bind (fun cid => if cid = "" then none else some cid)

def Extracted.asNew (a : Extracted) : NewAttachment where
  name := a.name
  contentType := a.contentType
  data := a.data

section

/-- The loop over the chunks of a file, from an offset on. -/
def uploadFrom (uploadUrl : String) (data : Bytes) (offset : ℕ) :
    ImportProgram (Except Exc Unit) :=
  if offset < data.length then do
    let stop := min (offset + attachmentChunk) data.length
    match ← perform (ImportCall.putRaw uploadUrl ((data.take stop).drop offset) offset stop data.length) with
    | .error e => pure (.error e)
    | .ok _ => uploadFrom uploadUrl data stop
  else pure (.ok ())
termination_by data.length - offset
decreasing_by
  have hchunk : 0 < attachmentChunk := by decide
  omega

/-- What `_add_attachment` sends of an attachment besides its content. -/
def NewAttachment.sent (a : NewAttachment) : NewAttachment :=
  { a with
    contentType := textOr (some a.contentType) "application/octet-stream"
    contentId := if a.isInline then a.contentId else none }

@[simp] theorem NewAttachment.sent_name (a : NewAttachment) : a.sent.name = a.name := rfl

/-- `_add_attachment`. -/
def addAttachment (messageId : String) (a : NewAttachment) : ImportProgram (Except Exc Unit) :=
  if a.data.length ≤ largeAttachmentThreshold then
    perform (ImportCall.postAttachment messageId a.sent)
  else do
    match ← perform (ImportCall.createUploadSession messageId a.sent a.data.length) with
    | .error e => pure (.error e)
    | .ok uploadUrl => uploadFrom uploadUrl a.data 0

/-- Attachments added one by one to a message that is there. -/
def addAttachments (messageId : String) : List NewAttachment → ImportProgram (Except Exc Unit)
  | [] => pure (.ok ())
  | a :: rest => do
    match ← addAttachment messageId a with
    | .error e => pure (.error e)
    | .ok _ => addAttachments messageId rest

/-- A message created by a call, and its attachments added. -/
def createWith (create : ImportProgram (Except Exc String)) (attachments : List NewAttachment) :
    ImportProgram (Except Exc String) := do
  match ← create with
  | .error e => pure (.error e)
  | .ok messageId =>
    match ← addAttachments messageId attachments with
    | .error e => pure (.error e)
    | .ok _ => pure (.ok messageId)

/-- The create call of `import_json_message`, and the second one after a 400. -/
def postJsonMessage (draft : Bool → JsonMessage) : ImportProgram (Except Exc String) := do
  match ← perform (ImportCall.postJson (draft true)) with
  | .ok messageId => pure (.ok messageId)
  | .error (.http 400 _) => perform (ImportCall.postJson (draft false))
  | .error e => pure (.error e)

/-- The attachments that go with the create request. -/
def inlineAttachments (attachments : List GraphAttachment) : List GraphAttachment :=
  if (attachments.map (fun a => base64Length a.content)).sum ≤ maxInlineAttachTotal then
    attachments
  else []

end

section
variable (pkg : EmailPackage)

/-- `import_json_message`. -/
def importJsonMessage (rawMime : Bytes) (flags : ImportFlags) :
    ImportProgram (Except Exc String) :=
  if rawMime = [] then
    pure (.error (.other "source returned empty MIME body; nothing to import"))
  else
    match pkg.parse (normalizeCrlf rawMime) with
    | .error text => pure (.error (.other text))
    | .ok msg =>
      match pkg.unreadable msg with
      | some text => pure (.error (.other text))
      | none =>
        let (body, attachments) := graphBodyAndAttachments pkg.serializer msg.root
        let inline := inlineAttachments attachments
        let draft := buildJsonMessage msg rawMime body inline flags
        createWith (postJsonMessage draft)
          (if attachments ≠ [] ∧ inline = [] then attachments.map GraphAttachment.asNew else [])

/-- `_post_mime`. -/
def postMime (rawMime : Bytes) : ImportProgram (Except Exc String) :=
  perform (ImportCall.postMime (normalizeCrlf rawMime))

/-- `_split_large_attachments`, from bytes to bytes. -/
def splitMessage (rawMime : Bytes) : Except String (Bytes × List Extracted) := do
  let msg ← pkg.parse rawMime
  let (stripped, attachments) := splitLargeAttachments pkg.serializer msg.root
  let bytes ← pkg.asBytes { msg with root := stripped }
  pure (bytes, attachments)

/-- `_import_mime`. -/
def importMime (rawMime : Bytes) : ImportProgram (Except Exc String) :=
  if rawMime.length ≤ maxMimeSinglePost then postMime rawMime
  else
    match splitMessage pkg rawMime with
    | .error text => pure (.error (.other text))
    | .ok (stripped, attachments) =>
      createWith (postMime stripped) (attachments.map Extracted.asNew)

/-- `_is_deserialize_400`. -/
def isDeserialize400 : Exc → Bool
  | .http status text => status = 400 && "UnableToDeserializePostBody".toList <:+: text.toList
  | .other _ => false

/-- `_TRACE_HEADERS`. -/
def traceHeaders : List String :=
  ["received", "received-spf", "arc-seal", "arc-message-signature", "arc-authentication-results",
    "dkim-signature", "x-google-dkim-signature", "authentication-results",
    "authentication-results-original", "x-forwarded-encrypted", "x-forwarded-for",
    "x-forwarded-to", "x-received", "x-google-smtp-source", "x-gm-message-state", "x-gm-gmsgid",
    "x-gm-thrid", "x-gm-labels", "x-spam-status", "x-spam-score", "x-spam-flag",
    "x-spam-checker-version"]

/-- `_cleaned_mime`. -/
def cleanedMime (rawMime : Bytes) : Option Bytes :=
  (pkg.parseSmtp rawMime).bind (fun msg =>
    pkg.smtpBytes { msg with
      headers := msg.headers.filter (fun h => Separators.lowerText h.1 ∉ traceHeaders) })

/-- `import_mime_message`: the message as it is, cleaned, and as JSON. The next of these is tried
when Graph could not parse the last. -/
def importMimeMessage (rawMime : Bytes) : ImportProgram (Except Exc String) :=
  if rawMime = [] then
    pure (.error (.other "source returned empty MIME body; nothing to import"))
  else do
    let rawMime := normalizeCrlf rawMime
    match ← importMime pkg rawMime with
    | .ok messageId => pure (.ok messageId)
    | .error e =>
      if !isDeserialize400 e then pure (.error e)
      else
        let viaJson := importJsonMessage pkg rawMime {}
        match cleanedMime pkg rawMime with
        | none => viaJson
        | some cleaned =>
          if cleaned = rawMime then viaJson
          else do
            match ← importMime pkg cleaned with
            | .ok messageId => pure (.ok messageId)
            | .error e => if !isDeserialize400 e then pure (.error e) else viaJson

/-- `import_message`. -/
def importMessage (mode : ImportMode) (rawMime : Bytes) (flags : ImportFlags) :
    ImportProgram (Except Exc String) :=
  match mode with
  | .mime => importMimeMessage pkg rawMime
  | .json => importJsonMessage pkg rawMime flags

end

end GwsMigrator.MessageImport
