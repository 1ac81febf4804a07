import GwsMigrator.Chunks
import GwsMigrator.MessageImport

/-! The upload sessions of `microsoft/files.py` and `microsoft/mail.py`: the PUTs of each loop
cover the content. The chunk size is a parameter here; the source has `_CHUNK_SIZE` for files and
`_ATTACHMENT_CHUNK` for attachments. -/
namespace GwsMigrator.UploadSessions
open Program Dialogue Chunks MessageImport

/-- What `put_raw` returns: nothing, an object with an id, or one without. -/
inductive PutReply where
  | nothing
  | item (id : String)
  | progress

/-- The calls of the two functions for files. A session has its URL. -/
inductive DriveCall where
  | createUploadSession (path userKey conflictBehavior : String)
  | putRaw (url : String) (data : Bytes) (userKey : String) (headers : List (String × String))

abbrev DriveCall.Result : DriveCall → Type
  | .createUploadSession .. => String
  | .putRaw .. => PutReply

abbrev DriveCall.Ans (c : DriveCall) : Type := Except Exc c.Result

abbrev DriveProgram := Program DriveCall.Ans

/-- `_ATTACHMENT_CHUNK`, as the size of chunks. -/
def attachmentChunkSize : ℕ+ := ⟨attachmentChunk, by decide⟩

/-- `GRAPH_BASE`. -/
def graphBase : String := "https://graph.microsoft.com/v1.0"

/-- The text of a Content-Range. -/
def contentRange (first last total : ℕ) : String :=
  "bytes " ++ toString first ++ "-" ++ toString last ++ "/" ++ toString total

/-- The headers of a PUT in the loops of `upload_large_file` and `update_file_content`. -/
def fileHeaders (c : Chunk UInt8) (total : ℕ) : List (String × String) :=
  [("Content-Length", toString c.body.length),
    ("Content-Range", contentRange c.offset (c.stop - 1) total),
    ("Content-Type", "application/octet-stream")]

/-- The headers of a PUT in the loop of `_add_attachment`. -/
def attachmentHeaders (c : Chunk UInt8) (size : ℕ) : List (String × String) :=
  [("Content-Type", "application/octet-stream"),
    ("Content-Length", toString c.body.length),
    ("Content-Range", contentRange c.offset (c.stop - 1) size)]

section
variable (size : ℕ+)

/-- A PUT in the loops for files. -/
abbrev putFile (uploadUrl userKey : String) (total : ℕ) (c : Chunk UInt8) : DriveCall :=
  .putRaw uploadUrl c.body userKey (fileHeaders c total)

/-- A PUT in the loop of `_add_attachment`. -/
abbrev putAttachment (uploadUrl : String) (total : ℕ) (c : Chunk UInt8) : ImportCall :=
  .putRaw uploadUrl c.body c.offset c.stop total

/-- What the loops read of the answer to a PUT. -/
def replyOf (uploadUrl userKey : String) (total : ℕ) (c : Chunk UInt8)
    (answer : (putFile uploadUrl userKey total c).Ans) : Except Exc PutReply := answer

def doneOf (uploadUrl userKey : String) (total : ℕ) (c : Chunk UInt8)
    (answer : (putFile uploadUrl userKey total c).Ans) : Except Exc Unit :=
  (replyOf uploadUrl userKey total c answer).map (fun _ => ())

def attachedOf (uploadUrl : String) (total : ℕ) (c : Chunk UInt8)
    (answer : (putAttachment uploadUrl total c).Ans) : Except Exc Unit := answer

/-- The loop of `upload_large_file`, which keeps the last result. -/
def largeFileChunks (uploadUrl userKey : String) (content : Bytes) :
    DriveProgram (Except Exc PutReply) :=
  sendFrom size content (putFile uploadUrl userKey content.length)
    (replyOf uploadUrl userKey content.length) 0 .nothing

/-- The loop of `update_file_content`, which drops what is returned. -/
def fileContentChunks (uploadUrl userKey : String) (content : Bytes) :
    DriveProgram (Except Exc Unit) :=
  sendFrom size content (putFile uploadUrl userKey content.length)
    (doneOf uploadUrl userKey content.length) 0 ()

/-- The loop of `_add_attachment` from an offset on. -/
def attachmentChunksFrom (uploadUrl : String) (data : Bytes) (offset : ℕ) :
    ImportProgram (Except Exc Unit) :=
  sendFrom size data (putAttachment uploadUrl data.length) (attachedOf uploadUrl data.length)
    offset ()

/-- The loop of `_add_attachment`. -/
def attachmentChunks (uploadUrl : String) (data : Bytes) : ImportProgram (Except Exc Unit) :=
  attachmentChunksFrom size uploadUrl data 0

/-- `upload_large_file`. -/
def uploadLargeFile (driveRoot userKey parentId fileName : String) (content : Bytes) :
    DriveProgram (Except Exc String) := do
  let path := s!"/{driveRoot}/items/{parentId}:/{fileName}:/createUploadSession"
  match ← perform (DriveCall.createUploadSession path userKey "rename") with
  | .error e => pure (.error e)
  | .ok uploadUrl =>
    match ← largeFileChunks size uploadUrl userKey content with
    | .error e => pure (.error e)
    | .ok .nothing => pure (.ok "")
    | .ok (.item id) => pure (.ok id)
    | .ok .progress => pure (.error (.other "'id'"))

/-- `update_file_content`. -/
def updateFileContent (driveRoot userKey destId : String) (content : Bytes) :
    DriveProgram (Except Exc Unit) :=
  if content.length ≤ size then do
    let url := s!"{graphBase}/{driveRoot}/items/{destId}/content"
    let headers := [("Content-Type", "application/octet-stream")]
    let answer ← perform (DriveCall.putRaw url content userKey headers)
    pure (answer.map (fun _ => ()))
  else do
    let path := s!"/{driveRoot}/items/{destId}/createUploadSession"
    match ← perform (DriveCall.createUploadSession path userKey "replace") with
    | .error e => pure (.error e)
    | .ok uploadUrl => fileContentChunks size uploadUrl userKey content

/-- The loop of the import is this loop at its own chunk size. -/
theorem uploadFrom_eq (uploadUrl : String) (data : Bytes) (offset : ℕ) :
    uploadFrom uploadUrl data offset =
      attachmentChunksFrom attachmentChunkSize uploadUrl data offset := by
  induction offset using chunksFrom.induct attachmentChunkSize data with
  | case1 offset h ih =>
    rw [uploadFrom, if_pos h, attachmentChunksFrom, sendFrom_of_lt _ _ _ _ h]
    simp only [perform_bind]
    congr 1
    funext answer
    cases answer with
    | error e => rfl
    | ok u => exact ih
  | case2 offset h =>
    rw [uploadFrom, if_neg h, attachmentChunksFrom, sendFrom_of_not_lt _ _ _ _ h]

theorem addAttachment_eq (messageId : String) (a : NewAttachment)
    (h : largeAttachmentThreshold < a.data.length) :
    addAttachment messageId a = (do
      match ← perform (ImportCall.createUploadSession messageId a.sent a.data.length) with
      | .error e => pure (.error e)
      | .ok uploadUrl => attachmentChunks attachmentChunkSize uploadUrl a.data) := by
  rw [addAttachment, if_neg (by omega)]
  simp only [uploadFrom_eq]
  rfl

end

/-- A PUT of a chunk. -/
structure Put where
  body : Bytes
  headers : List (String × String)

/-- The headers of a PUT say that its body is what stands from the first up to and including the
last of an interval of `n` bytes. -/
structure Put.Carries (p : Put) (n : ℕ) (interval : ℕ × ℕ) : Prop where
  range : p.headers.lookup "Content-Range" = some (contentRange interval.1 interval.2 n)
  length : p.headers.lookup "Content-Length" = some (toString p.body.length)
  body_length : interval.2 - interval.1 + 1 = p.body.length

/-- PUTs that cover a content in chunks of a size. -/
structure Tiling (size : ℕ+) (content : Bytes) (puts : List Put) : Prop where
  concat : puts.flatMap Put.body = content
  nonempty : ∀ p ∈ puts, p.body ≠ []
  bounded : ∀ p ∈ puts, p.body.length ≤ size
  full : ∀ p ∈ puts.dropLast, p.body.length = size
  ranges : ∃ intervals, List.Forall₂ (fun p i => p.Carries content.length i) puts intervals ∧
    Tiles 0 content.length intervals

/-- What was sent is the start of a tiling. When nothing failed it is all of it, and the loop
returns. -/
def Covers {ρ : Type} (size : ℕ+) (content : Bytes) (sent : List Put) (failed : Prop)
    (returned : Except Exc ρ) : Prop :=
  ∃ tiling, Tiling size content tiling ∧ sent <+: tiling ∧
    (¬ failed → sent = tiling ∧ ∃ result, returned = .ok result)

/-- So it is in every run of a loop, whatever its calls return. -/
def LoopCovers {Req : Type} {Ans : Req → Type} {ρ : Type} (size : ℕ+) (content : Bytes)
    (put? : Req → Option Put) (failed : Event Ans → Prop) (loop : Program Ans (Except Exc ρ)) :
    Prop :=
  ∀ (σ : Type) (serve : (r : Req) → σ → Ans r × σ) (s : σ),
    Covers size content (((loop.trace serve s).map Event.call).filterMap put?)
      (∃ e ∈ loop.trace serve s, failed e) (loop.run serve s).1

def filePut? : DriveCall → Option Put
  | .putRaw _ data _ headers => some ⟨data, headers⟩
  | _ => none

def attachmentPut? : ImportCall → Option Put
  | .putRaw _ chunk offset stop size => some ⟨chunk, attachmentHeaders ⟨offset, stop, chunk⟩ size⟩
  | _ => none

def FilePutFailed : Event DriveCall.Ans → Prop
  | ⟨.putRaw .., .error _⟩ => True
  | _ => False

def AttachmentPutFailed : Event ImportCall.Ans → Prop
  | ⟨.putRaw .., .error _⟩ => True
  | _ => False

/-- The PUTs of the chunks of a content, when their headers give range and length. -/
theorem tiling_of_headers (size : ℕ+) (content : Bytes)
    (headers : Chunk UInt8 → ℕ → List (String × String))
    (hrange : ∀ c n, (headers c n).lookup "Content-Range" =
      some (contentRange c.offset (c.stop - 1) n))
    (hlength : ∀ c n, (headers c n).lookup "Content-Length" = some (toString c.body.length)) :
    Tiling size content
      ((chunksFrom size content 0).map (fun c => ⟨c.body, headers c content.length⟩)) where
  concat := by
    rw [List.flatMap_map]
    have hall := flatMap_body size content 0
    rwa [List.drop_zero] at hall
  nonempty := by
    intro p hp
    obtain ⟨c, hc, rfl⟩ := List.mem_map.mp hp
    exact List.length_pos_iff.mp (length_of_mem size content hc).1
  bounded := by
    intro p hp
    obtain ⟨c, hc, rfl⟩ := List.mem_map.mp hp
    exact (length_of_mem size content hc).2
  full := by
    intro p hp
    rw [← List.map_dropLast] at hp
    obtain ⟨c, hc, rfl⟩ := List.mem_map.mp hp
    exact length_of_mem_dropLast size content hc
  ranges := by
    refine ⟨(chunksFrom size content 0).map Chunk.interval, ?_,
      chunks_tile size content (Nat.zero_le _)⟩
    rw [List.forall₂_map_left_iff, List.forall₂_map_right_iff, List.forall₂_same]
    intro c hc
    exact ⟨hrange c content.length, hlength c content.length, interval_length size content hc⟩

/-- A loop whose requests are PUTs with such headers covers its content. -/
theorem sendFrom_covers {Req : Type} {Ans : Req → Type} {ρ : Type} (size : ℕ+) (content : Bytes)
    (put : Chunk UInt8 → Req) (read : (c : Chunk UInt8) → Ans (put c) → Except Exc ρ)
    (headers : Chunk UInt8 → ℕ → List (String × String)) (put? : Req → Option Put)
    (failed : Event Ans → Prop)
    (hrange : ∀ c n, (headers c n).lookup "Content-Range" =
      some (contentRange c.offset (c.stop - 1) n))
    (hlength : ∀ c n, (headers c n).lookup "Content-Length" = some (toString c.body.length))
    (hput : ∀ c, put? (put c) = some ⟨c.body, headers c content.length⟩)
    (hfailed : ∀ c answer, failed ⟨put c, answer⟩ ↔ ∃ error, read c answer = .error error)
    (last : ρ) : LoopCovers size content put? failed (sendFrom size content put read 0 last) := by
  intro σ serve s
  obtain ⟨hstart, hall, -⟩ := sendFrom_sends size content put read serve hfailed 0 last s
  have hviews : ((chunksFrom size content 0).map put).filterMap put? =
      (chunksFrom size content 0).map (fun c => ⟨c.body, headers c content.length⟩) := by
    rw [List.filterMap_map, ← List.filterMap_eq_map]
    apply List.filterMap_congr
    intro c _
    exact hput c
  refine ⟨_, tiling_of_headers size content headers hrange hlength, ?_, fun hnone => ?_⟩
  · rw [← hviews]
    exact hstart.filterMap put?
  · obtain ⟨hsent, hreturned⟩ := hall (fun e he hfail => hnone ⟨e, he, hfail⟩)
    rw [hsent, hviews]
    exact ⟨rfl, hreturned⟩

theorem fileLoop_covers {ρ : Type} (size : ℕ+) (content : Bytes) (uploadUrl userKey : String)
    (read : (c : Chunk UInt8) → (putFile uploadUrl userKey content.length c).Ans → Except Exc ρ)
    (hread : ∀ c answer,
      (∃ error, read c answer = .error error) ↔
        ∃ error, replyOf uploadUrl userKey content.length c answer = .error error)
    (last : ρ) :
    LoopCovers size content filePut? FilePutFailed
      (sendFrom size content (putFile uploadUrl userKey content.length) read 0 last) := by
  apply sendFrom_covers size content _ read fileHeaders
  · intro c n
    rfl
  · intro c n
    rfl
  · intro c
    rfl
  · intro c answer
    rw [hread]
    cases answer with
    | error e => exact iff_of_true trivial ⟨e, rfl⟩
    | ok reply => exact iff_of_false id (fun ⟨error, herror⟩ => by cases herror)

/-- In each of the three loops, whatever the calls return: the PUTs cover the content in chunks
that follow on one another, up to the first that fails. -/
theorem uploadLoops_cover (size : ℕ+) (content : Bytes) (uploadUrl userKey : String) :
    LoopCovers size content filePut? FilePutFailed
        (largeFileChunks size uploadUrl userKey content) ∧
      LoopCovers size content filePut? FilePutFailed
        (fileContentChunks size uploadUrl userKey content) ∧
      LoopCovers size content attachmentPut? AttachmentPutFailed
        (attachmentChunks size uploadUrl content) := by
  refine ⟨?_, ?_, ?_⟩
  · exact fileLoop_covers size content uploadUrl userKey _ (fun _ _ => Iff.rfl) _
  · apply fileLoop_covers size content uploadUrl userKey
    intro c answer
    rw [doneOf]
    cases replyOf uploadUrl userKey content.length c answer with
    | error e => exact iff_of_true ⟨e, rfl⟩ ⟨e, rfl⟩
    | ok reply =>
      apply iff_of_false
      · rintro ⟨error, herror⟩
        cases herror
      · rintro ⟨error, herror⟩
        cases herror
  · apply sendFrom_covers size content _ _ attachmentHeaders
    · intro c n
      rfl
    · intro c n
      rfl
    · intro c
      rfl
    · intro c answer
      cases answer with
      | error e => exact iff_of_true trivial ⟨e, rfl⟩
      | ok u => exact iff_of_false id (fun ⟨error, herror⟩ => by cases herror)

end GwsMigrator.UploadSessions
