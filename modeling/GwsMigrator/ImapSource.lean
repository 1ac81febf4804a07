import GwsMigrator.Dialogue
import GwsMigrator.GraphCalls
import GwsMigrator.Separators
import Mathlib.Data.Finset.Insert

/-! `connectors/imap.py`: one pass over the folders of an IMAP account. -/
namespace GwsMigrator
open Dialogue Separators

/-- The two kinds of exceptions of the IMAP client. After an abort the connection is gone. -/
inductive ImapExc where
  | abort (text : String)
  | error (text : String)

structure ImapFolder where
  rawName : String
  mappedPath : String

/-- A line of the LIST answer that parses. -/
structure ListLine where
  flags : String
  delim : String
  name : String

/-- A STATUS answer: not OK, without data, or with either item there or missing. -/
inductive StatusAnswer where
  | refused
  | empty
  | items (uidvalidity uidnext : Option ℕ)

inductive ListAnswer where
  | refused (typ : String)
  | lines (lines : List (Option ListLine))

inductive SearchAnswer where
  | refused
  | listed (uids : List ℕ)

/-- A part of a FETCH answer: the flags in it, and the body if it carries the literal. -/
structure FetchPart where
  flags : List String
  literal : Option Bytes

inductive FetchAnswer where
  | refused (typ : String)
  | parts (parts : List FetchPart)

/-- The commands of a pass. UID SEARCH and UID FETCH go to the selected folder; `raw` says
which one that is, and `uidnext` what the new cursor has for it. -/
inductive ImapCall where
  | list
  | status (raw : String)
  | select (raw : String)
  | search (raw : String) (startUid : ℕ) (uidnext : ℕ)
  | fetch (raw : String) (uid : ℕ)

abbrev ImapCall.Result : ImapCall → Type
  | .list => ListAnswer
  | .status _ => StatusAnswer
  | .select _ => Unit
  | .search .. => SearchAnswer
  | .fetch .. => FetchAnswer

abbrev ImapCall.Ans (c : ImapCall) : Type := Except ImapExc c.Result

abbrev ImapLog := Log ImapCall.Ans

/-- A folder on the server. UIDs start at 1 and are given out in order. -/
structure Mailbox where
  uidvalidity : ℕ
  uidnext : ℕ
  uids : Finset ℕ
  uidvalidity_pos : 0 < uidvalidity
  uidnext_pos : 0 < uidnext
  uids_pos : ∀ u ∈ uids, 0 < u
  uids_lt : ∀ u ∈ uids, u < uidnext

/-- Messages arrive under new UIDs, and are expunged. -/
structure Mailbox.Grows (box box' : Mailbox) : Prop where
  uidvalidity : box'.uidvalidity = box.uidvalidity
  uidnext : box.uidnext ≤ box'.uidnext
  uids : ∀ u ∈ box'.uids, u ∈ box.uids ∨ box.uidnext ≤ u

/-- A server during one pass: its answers, and its folders at each moment. Any command may
raise or be refused; an answer that says something about a folder tells the truth. -/
structure ImapServer where
  answer : Oracle ImapCall.Ans
  boxes : ImapLog → String → Mailbox
  grows : ∀ log e raw, (boxes log raw).Grows (boxes (e :: log) raw)
  status_uidvalidity : ∀ log raw v n, answer log (.status raw) = .ok (.items (some v) n) →
    v = (boxes log raw).uidvalidity
  status_uidnext : ∀ log raw v n, answer log (.status raw) = .ok (.items v (some n)) →
    n = (boxes log raw).uidnext
  -- `start:*` means the highest UID too when `start` is beyond it
  search_listed : ∀ log raw start next uids,
    answer log (.search raw start next) = .ok (.listed uids) →
    ∀ u, u ∈ uids ↔ u ∈ (boxes log raw).uids ∧
      (start ≤ u ∨ ∀ u' ∈ (boxes log raw).uids, u' ≤ u)

/-- What the cursor holds for a folder. -/
structure FolderCursor where
  uidvalidity : ℕ
  uidnext : ℕ
deriving DecidableEq

/-- The decoded cursor. No cursor at all and an empty one are the same to a pass. -/
abbrev ImapCursor := AList (fun _ : String => FolderCursor)

/-- A message or stub that a pass yields, with the UID it was fetched by. -/
structure Yielded where
  folder : String
  uidvalidity : ℕ
  uid : ℕ
  message : SourceMessage

/-- The state of `iter_messages`. A pass that raised goes no further. -/
structure ImapScan where
  log : ImapLog := []
  cursor : ImapCursor := ∅
  yielded : List Yielded := []
  raised : Option ImapExc := none

/-- `_SPECIAL_USE`. -/
def specialUse : List (String × String) :=
  [("\\Sent", "SentItems"), ("\\Drafts", "Drafts"), ("\\Trash", "DeletedItems"),
    ("\\Junk", "JunkEmail")]

/-- `_NAME_HEURISTICS`. -/
def nameHeuristics : List (String × String) :=
  [("inbox", "Inbox"), ("sent", "SentItems"), ("sent items", "SentItems"), ("drafts", "Drafts"),
    ("trash", "DeletedItems"), ("deleted", "DeletedItems"), ("deleted items", "DeletedItems"),
    ("junk", "JunkEmail"), ("spam", "JunkEmail")]

/-- Python's `part in whole` on strings. -/
def isIn (part whole : String) : Bool := part.toList <:+: whole.toList

/-- `_map_folder`: special use first, then the name of the leaf, then the path itself. -/
def mapFolder (raw flags delim : String) : String :=
  match specialUse.find? (fun entry => isIn entry.1 flags) with
  | some (_, dest) => dest
  | none =>
    let leaf := (splitText raw delim).getLast?.getD raw
    match nameHeuristics.lookup (lowerText leaf) with
    | some dest => dest
    | none => replaceText raw delim "\\"

/-- `_folders`, from the lines of a LIST answer. -/
def listedFolders (excludeFolders : List String) (lines : List (Option ListLine)) :
    List ImapFolder :=
  lines.filterMap (fun line => line.bind (fun m =>
    -- a folder that only holds others
    if isIn "\\Noselect" m.flags then none
    else if m.name ∈ excludeFolders then none
    else
      let delim := if m.delim = "" then "/" else m.delim
      some ⟨m.name, mapFolder m.name m.flags delim⟩))

/-- `_status`: UIDVALIDITY 0 and UIDNEXT 1 stand for what the server does not say. -/
def readStatus : StatusAnswer → ℕ × ℕ
  | .refused => (0, 1)
  | .empty => (0, 1)
  | .items uidvalidity uidnext => (uidvalidity.getD 0, uidnext.getD 1)

def imapSourceId (raw : String) (uidvalidity uid : ℕ) : String :=
  raw ++ ":" ++ toString uidvalidity ++ ":" ++ toString uid

/-- `_fetch_failed`. -/
def fetchFailed (sourceId : String) (folder : ImapFolder) (error : String) : SourceMessage :=
  { sourceId := sourceId, folderPaths := [folder.mappedPath], fetchError := error }

section
variable (server : ImapServer) (messageIdOf : Bytes → Option String)

def ImapScan.ask (st : ImapScan) (c : ImapCall) : c.Ans := server.answer st.log c

def ImapScan.after (st : ImapScan) (c : ImapCall) : ImapScan :=
  { st with log := ⟨c, st.ask server c⟩ :: st.log }

/-- `_fetch_message`, from the answer to FETCH. Only an abort ends the pass. -/
def fetchMessage (folder : ImapFolder) (uid uidvalidity : ℕ) :
    Except ImapExc FetchAnswer → Except ImapExc SourceMessage :=
  let sourceId := imapSourceId folder.rawName uidvalidity uid
  fun
  | .error (.abort text) => .error (.abort text)
  | .error (.error text) => .ok (fetchFailed sourceId folder ("IMAP FETCH failed: " ++ text))
  | .ok (.refused typ) => .ok (fetchFailed sourceId folder ("IMAP FETCH returned " ++ typ))
  | .ok (.parts parts) =>
    -- the last literal is the body, the flags may stand in any part
    let rawBytes := (parts.filterMap (·.literal)).getLast?.getD []
    if rawBytes = [] then
      .ok (fetchFailed sourceId folder "IMAP FETCH returned no RFC822 body")
    else
      let flagStr := " ".intercalate (parts.flatMap (·.flags))
      .ok { sourceId := sourceId, rawMime := rawBytes, folderPaths := [folder.mappedPath],
            isRead := isIn "\\Seen" flagStr, isFlagged := isIn "\\Flagged" flagStr,
            dedupHash := (messageIdOf rawBytes).getD sourceId }

/-- One round of the loop over the UIDs of a search. -/
def fetchUid (folder : ImapFolder) (uidvalidity startUid : ℕ) (st : ImapScan) (uid : ℕ) :
    ImapScan :=
  if st.raised.isSome then st
  -- the server returns the last message when `start` is beyond the highest UID
  else if uid < startUid then st
  else
    let call := ImapCall.fetch folder.rawName uid
    match fetchMessage messageIdOf folder uid uidvalidity (st.ask server call) with
    | .ok message =>
      { st.after server call with
        yielded := st.yielded ++ [⟨folder.rawName, uidvalidity, uid, message⟩] }
    | .error e => { st.after server call with raised := some e }

/-- SELECT and UID SEARCH, and the messages they find. -/
def searchFolder (folder : ImapFolder) (uidvalidity startUid uidnext : ℕ) (st : ImapScan) :
    ImapScan :=
  let select := ImapCall.select folder.rawName
  let st₁ := st.after server select
  match st.ask server select with
  | .error e => { st₁ with raised := some e }
  | .ok _ =>
    let search := ImapCall.search folder.rawName startUid uidnext
    let st₂ := st₁.after server search
    match st₁.ask server search with
    | .error e => { st₂ with raised := some e }
    -- the folder is left out, with its cursor entry already there
    | .ok .refused => st₂
    | .ok (.listed uids) =>
      uids.foldl (fetchUid server messageIdOf folder uidvalidity startUid) st₂

/-- One round of the loop over the folders. The new cursor has the folder before the search
that is to justify it. -/
def scanFolder (since : ImapCursor) (st : ImapScan) (folder : ImapFolder) : ImapScan :=
  if st.raised.isSome then st
  else
    let status := ImapCall.status folder.rawName
    let st₁ := st.after server status
    match st.ask server status with
    | .error e => { st₁ with raised := some e }
    | .ok answer =>
      let uidvalidity := (readStatus answer).1
      let uidnext := (readStatus answer).2
      let st₂ := { st₁ with cursor := st₁.cursor.insert folder.rawName ⟨uidvalidity, uidnext⟩ }
      match since.lookup folder.rawName with
      | none => searchFolder server messageIdOf folder uidvalidity 1 uidnext st₂
      | some prev =>
        if prev.uidvalidity = uidvalidity then
          -- nothing new since the last pass
          if uidnext ≤ prev.uidnext then st₂
          else searchFolder server messageIdOf folder uidvalidity prev.uidnext uidnext st₂
        -- the UIDs were renumbered, so that all are new
        else searchFolder server messageIdOf folder uidvalidity 1 uidnext st₂

/-- `iter_messages`. -/
def iterMessages (excludeFolders : List String) (since : ImapCursor) : ImapScan :=
  let st : ImapScan := {}
  let st₁ := st.after server .list
  match st.ask server .list with
  | .error e => { st₁ with raised := some e }
  | .ok (.refused typ) => { st₁ with raised := some (.error ("IMAP LIST failed: " ++ typ)) }
  | .ok (.lines lines) =>
    (listedFolders excludeFolders lines).foldl (scanFolder server messageIdOf since) st₁

end

end GwsMigrator
