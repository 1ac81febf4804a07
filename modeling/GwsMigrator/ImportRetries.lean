import GwsMigrator.ImportOutcome
import GwsMigrator.LostAnswers
import GwsMigrator.UploadSessions

/-! `import_message` with the client under it: over a network that loses answers an import leaves
what it leaves when every call is atomic, and a message for each create whose answer was lost. -/
namespace GwsMigrator.MessageImport
open Program Dialogue GraphClient

/-- How the requests of an import are written and their answers read. -/
structure Encoding where
  payload : ImportCall → Payload
  idOf : Response → String
  uploadUrlOf : Response → String

/-- The headers of `_post_mime` and of a chunk. -/
def ImportCall.headers : ImportCall → List (String × String)
  | .postMime _ => [("Content-Type", "text/plain")]
  | .putRaw _ chunk offset stop size =>
    [("Content-Type", "application/octet-stream"),
      ("Content-Length", toString chunk.length),
      ("Content-Range", UploadSessions.contentRange offset (stop - 1) size)]
  | _ => []

/-- Where a request goes. -/
def ImportCall.url (msUserId folderId : String) : ImportCall → String
  | .postMime _ | .postJson _ =>
    graphBase ++ s!"/users/{msUserId}/mailFolders/{folderId}" ++ "/messages"
  | .postAttachment messageId _ =>
    graphBase ++ s!"/users/{msUserId}/messages/{messageId}" ++ "/attachments"
  | .createUploadSession messageId _ _ =>
    graphBase ++ s!"/users/{msUserId}/messages/{messageId}" ++ "/attachments/createUploadSession"
  | .putRaw uploadUrl .. => uploadUrl

section
variable (encoding : Encoding) (msUserId folderId : String)

def ImportCall.arguments (call : ImportCall) : Arguments where
  method := match call with
    | .putRaw .. => .put
    | _ => .post
  url := call.url msUserId folderId
  userKey := msUserId
  headers := call.headers
  payload := encoding.payload call

/-- What a call returns, read from the response. -/
def ImportCall.answer (call : ImportCall) (r : Except ClientError Response) : call.Ans :=
  match call, r with
  | _, .error e => .error e.toExc
  | .postMime _, .ok response => .ok (encoding.idOf response)
  | .postJson _, .ok response => .ok (encoding.idOf response)
  | .postAttachment .., .ok _ => .ok ()
  | .createUploadSession .., .ok response => .ok (encoding.uploadUrlOf response)
  | .putRaw .., .ok _ => .ok ()

/-- Whether a call creates a message. -/
def ImportCall.creates : ImportCall → Bool
  | .postMime _ | .postJson _ => true
  | _ => false

/-- A mail server, and how many messages it has: a create that succeeds adds one, and nothing else
does. -/
structure MailServer (ω : Type) where
  carry : HttpRequest → ω → Response × ω
  messages : ω → ℕ
  makes : ∀ call : ImportCall, Makes carry messages (call.arguments encoding msUserId folderId)
    (if call.creates then 1 else 0)

variable {ω : Type} (t : Tenacity) (settings : Settings) (network : Network)
  (server : MailServer encoding msUserId folderId ω)

/-- A call of the import by way of the client. -/
def serveImport (call : ImportCall) (s : ClientState (Line ω)) :
    call.Ans × ClientState (Line ω) :=
  let r := request t settings (network.outside server.carry server.messages)
    (call.arguments encoding msUserId folderId) s
  (call.answer encoding r.1, r.2)

end

/-- The state in which a server is left by some calls, and the answers that it gives after them. -/
def replayed {σ : Type} (serve : (call : ImportCall) → σ → call.Ans × σ) (s : σ) :
    Log ImportCall.Ans → σ
  | [] => s
  | event :: log => (serve event.call (replayed serve s log)).2

def replay {σ : Type} (serve : (call : ImportCall) → σ → call.Ans × σ) (s : σ) :
    Oracle ImportCall.Ans :=
  fun log call => (serve call (replayed serve s log)).1

/-- An import over any server goes as with the script of its answers. -/
theorem run_replay {σ α : Type} (serve : (call : ImportCall) → σ → call.Ans × σ) (s : σ)
    (p : ImportProgram α) (box : Mailbox) :
    p.run serve (replayed serve s box.log) =
      ((p.run (Mailbox.serve (replay serve s)) box).1,
        replayed serve s (p.run (Mailbox.serve (replay serve s)) box).2.log) :=
  run_map box (fun box : Mailbox => replayed serve s box.log) (fun _ _ => rfl) p

theorem length_receive (box : Mailbox) (url : String) (chunk : Bytes) :
    (box.receive url chunk).messages.length = box.messages.length := by
  unfold Mailbox.receive
  split
  · rfl
  · dsimp only
    split
    · rfl
    · exact length_attach _ _ _

/-- A call adds a message when it creates one and succeeds. -/
theorem length_record (box : Mailbox) (call : ImportCall) (answer : call.Ans) :
    (box.record call answer).messages.length =
      box.messages.length + (if call.creates then 1 else 0) * Retries.returnedCount answer := by
  cases answer with
  | error e => simp [Mailbox.record, Retries.returnedCount]
  | ok result =>
    cases call with
    | postMime content | postJson message =>
      simp [Mailbox.record, Mailbox.accept, ImportCall.creates, Retries.returnedCount]
    | postAttachment messageId a =>
      simp [Mailbox.record, Mailbox.accept, ImportCall.creates, length_attach]
    | createUploadSession messageId a size =>
      simp [Mailbox.record, Mailbox.accept, ImportCall.creates]
    | putRaw url chunk offset stop size =>
      simp [Mailbox.record, Mailbox.accept, ImportCall.creates, length_receive]

section
variable (encoding : Encoding) (msUserId folderId : String) {ω : Type} (t : Tenacity)
  (settings : Settings) (network : Network) (server : MailServer encoding msUserId folderId ω)

theorem returnedCount_answer (call : ImportCall) (r : Except ClientError Response) :
    Retries.returnedCount (call.answer encoding r) = Retries.returnedCount r := by
  cases r <;> cases call <;> rfl

/-- One call makes a message when it creates one and returns, or when nobody hears of it. -/
theorem serveImport_made (call : ImportCall) (s : ClientState (Line ω)) :
    let r := serveImport encoding msUserId folderId t settings network server call s
    server.messages r.2.net.server + s.net.unheard =
      server.messages s.net.server + r.2.net.unheard +
        (if call.creates then 1 else 0) * Retries.returnedCount r.1 := by
  have hmade := request_made network settings t (server.makes call) s
  simp only [serveImport, returnedCount_answer]
  exact hmade

/-- A run of an import program over the line, and the messages of the run in which every call is
atomic. -/
theorem run_over_line {α : Type} (p : ImportProgram α) (s : ClientState (Line ω)) :
    let serve := serveImport encoding msUserId folderId t settings network server
    let atomic := p.run (Mailbox.serve (replay serve s)) {}
    (p.run serve s).1 = atomic.1 ∧
      server.messages (p.run serve s).2.net.server + s.net.unheard =
        server.messages s.net.server + (p.run serve s).2.net.unheard +
          atomic.2.messages.length := by
  intro serve atomic
  have hrun := run_replay serve s p {}
  have hcount : ∀ {α : Type} (p : ImportProgram α) (box : Mailbox),
      server.messages (replayed serve s box.log).net.server + s.net.unheard =
        server.messages s.net.server + (replayed serve s box.log).net.unheard +
          box.messages.length →
      let box' := (p.run (Mailbox.serve (replay serve s)) box).2
      server.messages (replayed serve s box'.log).net.server + s.net.unheard =
        server.messages s.net.server + (replayed serve s box'.log).net.unheard +
          box'.messages.length := by
    intro α p
    induction p with
    | done a => exact fun box h => h
    | request call next ih =>
      intro box h
      apply ih
      have hone := serveImport_made encoding msUserId folderId t settings network server call
        (replayed serve s box.log)
      have hlength := length_record box call (replay serve s box.log call)
      change server.messages (serve call (replayed serve s box.log)).2.net.server + _ =
        server.messages _ + (serve call (replayed serve s box.log)).2.net.unheard + _
      simp only [Mailbox.serve, hlength]
      change server.messages (serve call _).2.net.server + _ = _ + (serve call _).2.net.unheard +
        _ * Retries.returnedCount (replay serve s box.log call) at hone
      omega
  refine ⟨congrArg Prod.fst hrun, ?_⟩
  rw [show (p.run serve s).2 = _ from congrArg Prod.snd hrun]
  exact hcount p {} (by simp [replayed])

/-- An import over a network that loses answers goes as one whose calls are atomic, and leaves the
messages of that and those that nobody has heard of. Where no attachment call fails, these are one
message if the import returns and none if it raises. -/
theorem import_over_line (pkg : EmailPackage) (mode : ImportMode) (rawMime : Bytes)
    (flags : ImportFlags) (s : ClientState (Line ω)) :
    let r := (importMessage pkg mode rawMime flags).run
      (serveImport encoding msUserId folderId t settings network server) s
    ∃ script : Oracle ImportCall.Ans,
      let atomic := importRun pkg script mode rawMime flags
      r.1 = atomic.1 ∧
        server.messages r.2.net.server + s.net.unheard =
          server.messages s.net.server + r.2.net.unheard + atomic.2.messages.length ∧
        (attachmentFailed atomic.2.log = false →
          atomic.2.messages.length = Retries.returnedCount r.1) := by
  intro r
  let serve := serveImport encoding msUserId folderId t settings network server
  obtain ⟨hresult, hmade⟩ := run_over_line encoding msUserId folderId t settings network server
    (importMessage pkg mode rawMime flags) s
  refine ⟨replay serve s, hresult, hmade, fun hclean => ?_⟩
  have hends := importRun_ends pkg (replay serve s) mode rawMime flags
  have hreturned : r.1 = (importRun pkg (replay serve s) mode rawMime flags).1 := hresult
  rw [hreturned]
  rcases hrun : importRun pkg (replay serve s) mode rawMime flags with ⟨e | id, box⟩
  · rw [hrun] at hends hclean
    rcases hends with ⟨-, hnone⟩ | ⟨hspoilt, -⟩
    · exact congrArg List.length hnone
    · rw [hclean] at hspoilt
      cases hspoilt
  · rw [hrun] at hends hclean
    rcases hends with ⟨-, m, hone, -⟩ | ⟨hspoilt, -⟩
    · exact congrArg List.length hone
    · rw [hclean] at hspoilt
      cases hspoilt

end

/-- A server that creates a message for every POST to a collection of messages. -/
def acceptsMessages (request : HttpRequest) (messages : ℕ) : Response × ℕ :=
  ({ status := 201 },
    if request.method = .post ∧ "/messages".toList <:+ request.url.toList then messages + 1
    else messages)

/-- An attachment goes to another collection. -/
theorem not_messages_suffix {base tail : String} (h : ¬ "/messages".toList <:+ tail.toList)
    (hlength : "/messages".toList.length ≤ tail.toList.length) :
    ¬ "/messages".toList <:+ (base ++ tail).toList := by
  intro hsuffix
  rw [String.toList_append] at hsuffix
  exact h (List.suffix_of_suffix_length_le hsuffix (List.suffix_append _ _) hlength)

def messageServer (encoding : Encoding) (msUserId folderId : String) :
    MailServer encoding msUserId folderId ℕ where
  carry := acceptsMessages
  messages := id
  makes := by
    intro call token w
    have hsuccess : ∀ request w, (acceptsMessages request w).1.isSuccess = true := fun _ _ => rfl
    simp only [hsuccess, if_true, id]
    cases call with
    | postMime content | postJson message =>
      refine if_pos ⟨rfl, ?_⟩
      simp only [Arguments.request, ImportCall.arguments, ImportCall.url, String.toList_append]
      exact List.suffix_append _ _
    | postAttachment messageId a =>
      refine if_neg fun h => ?_
      exact not_messages_suffix (by decide) (by decide) h.2
    | createUploadSession messageId a size =>
      refine if_neg fun h => ?_
      exact not_messages_suffix (by decide) (by decide) h.2
    | putRaw url chunk offset stop size =>
      simp [acceptsMessages, Arguments.request, ImportCall.arguments, ImportCall.creates]

def plainEncoding : Encoding where
  payload
    | .postMime content => .content content
    | .putRaw _ chunk .. => .content chunk
    | _ => .json "{}"
  idOf _ := "AAMk1"
  uploadUrlOf _ := "https://outlook.office.com/upload"

/-- The answer to the first create is lost and the message is created again: of the two messages
one is the one that an import with atomic calls leaves. -/
theorem import_over_losing_line :
    let settings : Settings := ⟨false, false, Tenacity.plain.backoff⟩
    let r := (importMessage (filePackage []) .mime fileHeader {}).run
      (serveImport plainEncoding "u" "inbox" Tenacity.plain settings losesFirst
        (messageServer plainEncoding "u" "inbox")) { net := { server := 0 } }
    r.1 = .ok "AAMk1" ∧ r.2.net.server = 2 ∧ r.2.net.unheard = 1 ∧
      ∃ script, (importRun (filePackage []) script .mime fileHeader {}).1 = .ok "AAMk1" ∧
        (importRun (filePackage []) script .mime fileHeader {}).2.messages.length = 1 := by
  intro settings r
  obtain ⟨script, hresult, hmade, -⟩ := import_over_line plainEncoding "u" "inbox" Tenacity.plain
    settings losesFirst (messageServer plainEncoding "u" "inbox") (filePackage []) .mime fileHeader
    {} { net := { server := 0 } }
  have hreturned : r.1 = .ok "AAMk1" := by decide
  have hserver : r.2.net.server = 2 := by decide
  have hunheard : r.2.net.unheard = 1 := by decide
  refine ⟨hreturned, hserver, hunheard, script, hresult.symm.trans hreturned, ?_⟩
  have htwo : (2 : ℕ) + 0 = 0 + 1 +
      (importRun (filePackage []) script .mime fileHeader {}).2.messages.length := by
    rw [← hserver, ← hunheard]
    exact hmade
  omega

end GwsMigrator.MessageImport
