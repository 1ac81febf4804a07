import GwsMigrator.ImapCursor
import GwsMigrator.GuardedRuns

/-! `inventory_messages` of `connectors/imap.py`, the dry run of `iter_messages`, and where the
two read one state of an account the same way. -/
namespace GwsMigrator
open Dialogue

/-- The commands of a dry run. Its FETCH asks for flags, size and three header lines. -/
inductive InventoryCall where
  | list
  | status (raw : String)
  | select (raw : String)
  | searchAll (raw : String)
  | fetchHeaders (raw : String) (uid : ℕ)

abbrev InventoryCall.Result : InventoryCall → Type
  | .list => ListAnswer
  | .status _ => StatusAnswer
  | .select _ => Unit
  | .searchAll _ => SearchAnswer
  | .fetchHeaders .. => FetchAnswer

abbrev InventoryCall.Ans (c : InventoryCall) : Type := Except ImapExc c.Result

/-- The state of `inventory_messages`. -/
structure InventoryScan where
  log : Log InventoryCall.Ans := []
  yielded : List SourceMessage := []
  raised : Option ImapExc := none

section
variable (answer : Oracle InventoryCall.Ans)

def InventoryScan.ask (st : InventoryScan) (c : InventoryCall) : c.Ans := answer st.log c

def InventoryScan.after (st : InventoryScan) (c : InventoryCall) : InventoryScan :=
  { st with log := ⟨c, st.ask answer c⟩ :: st.log }

/-- A row of the dry run, from the answer to FETCH. Neither its status nor its errors are
looked at, and every part with a literal sets the flags anew. -/
def inventoryMessage (folder : ImapFolder) (uid uidvalidity : ℕ) :
    Except ImapExc FetchAnswer → Except ImapExc SourceMessage
  | .error e => .error e
  | .ok fetched =>
    let parts := match fetched with
      | .refused _ => []
      | .parts parts => parts
    let flags := ((parts.filter (·.literal.isSome)).getLast?.map (·.flags)).getD []
    .ok { sourceId := imapSourceId folder.rawName uidvalidity uid
          folderPaths := [folder.mappedPath]
          isRead := isIn "\\Seen" (" ".intercalate flags) }

def inventoryUid (folder : ImapFolder) (uidvalidity : ℕ) (st : InventoryScan) (uid : ℕ) :
    InventoryScan :=
  if st.raised.isSome then st
  else
    let call := InventoryCall.fetchHeaders folder.rawName uid
    match inventoryMessage folder uid uidvalidity (st.ask answer call) with
    | .ok message => { st.after answer call with yielded := st.yielded ++ [message] }
    | .error e => { st.after answer call with raised := some e }

/-- One round of the loop over the folders. -/
def inventoryFolder (st : InventoryScan) (folder : ImapFolder) : InventoryScan :=
  if st.raised.isSome then st
  else
    let status := InventoryCall.status folder.rawName
    let st₁ := st.after answer status
    match st.ask answer status with
    | .error e => { st₁ with raised := some e }
    | .ok statusAnswer =>
      let select := InventoryCall.select folder.rawName
      let st₂ := st₁.after answer select
      match st₁.ask answer select with
      | .error e => { st₂ with raised := some e }
      | .ok _ =>
        let search := InventoryCall.searchAll folder.rawName
        let st₃ := st₂.after answer search
        match st₂.ask answer search with
        | .error e => { st₃ with raised := some e }
        | .ok .refused => st₃
        | .ok (.listed uids) =>
          uids.foldl (inventoryUid answer folder (readStatus statusAnswer).1) st₃

/-- `inventory_messages`. -/
def inventoryMessages (excludeFolders : List String) : InventoryScan :=
  let st : InventoryScan := {}
  let st₁ := st.after answer .list
  match st.ask answer .list with
  | .error e => { st₁ with raised := some e }
  | .ok (.refused typ) => { st₁ with raised := some (.error ("IMAP LIST failed: " ++ typ)) }
  | .ok (.lines lines) => (listedFolders excludeFolders lines).foldl (inventoryFolder answer) st₁

end

/-- Where the FLAGS item stands in the answer to a FETCH. -/
inductive FetchOrder where
  | flagsFirst
  | literalFirst
deriving DecidableEq

/-- The parts that imaplib makes of an answer to FETCH. -/
def FetchOrder.parts (order : FetchOrder) (flags : List String) (literal : Bytes) :
    List FetchPart :=
  match order with
  | .flagsFirst => [⟨flags, some literal⟩, ⟨[], none⟩]
  | .literalFirst => [⟨[], some literal⟩, ⟨flags, none⟩]

/-- An account that stays as it is on a server that answers every command: the folders, what
STATUS says of them, their messages in the order of a SEARCH, and the order of the items in the
answers to the two kinds of FETCH. -/
structure SteadyAccount where
  lines : List (Option ListLine)
  box : String → Mailbox
  status : String → StatusAnswer
  listing : String → List ℕ
  flags : String → ℕ → List String
  body : String → ℕ → Bytes
  headers : String → ℕ → Bytes
  fetchOrder : String → ℕ → FetchOrder
  inventoryOrder : String → ℕ → FetchOrder
  mem_listing : ∀ raw u, u ∈ listing raw ↔ u ∈ (box raw).uids
  status_uidvalidity : ∀ raw v n, status raw = .items (some v) n → v = (box raw).uidvalidity
  status_uidnext : ∀ raw v n, status raw = .items v (some n) → n = (box raw).uidnext

namespace SteadyAccount
variable (account : SteadyAccount)

/-- The server as `iter_messages` meets it. -/
def server : ImapServer where
  answer _ c :=
    match c with
    | .list => .ok (.lines account.lines)
    | .status raw => .ok (account.status raw)
    | .select _ => .ok ()
    | .search raw start _ => .ok (.listed ((account.listing raw).filter
        (fun u => start ≤ u ∨ ∀ u' ∈ account.listing raw, u' ≤ u)))
    | .fetch raw uid => .ok (.parts
        ((account.fetchOrder raw uid).parts (account.flags raw uid) (account.body raw uid)))
  boxes _ := account.box
  grows _ _ _ := Mailbox.Grows.refl _
  status_uidvalidity _ raw v n h := account.status_uidvalidity raw v n (Except.ok.inj h)
  status_uidnext _ raw v n h := account.status_uidnext raw v n (Except.ok.inj h)
  search_listed _ raw start _ uids h u := by
    cases h
    simp only [List.mem_filter, decide_eq_true_eq, account.mem_listing]

/-- The same server as `inventory_messages` meets it. -/
def inventory : Oracle InventoryCall.Ans := fun _ c =>
  match c with
  | .list => .ok (.lines account.lines)
  | .status raw => .ok (account.status raw)
  | .select _ => .ok ()
  | .searchAll raw => .ok (.listed (account.listing raw))
  | .fetchHeaders raw uid => .ok (.parts
      ((account.inventoryOrder raw uid).parts (account.flags raw uid) (account.headers raw uid)))

theorem listing_pos {raw : String} {u : ℕ} (h : u ∈ account.listing raw) : 0 < u :=
  (account.box raw).uids_pos u ((account.mem_listing raw u).mp h)

section answers
variable (st : ImapScan) (st' : InventoryScan) (raw : String)

@[simp] theorem server_status : st.ask account.server (.status raw) = .ok (account.status raw) :=
  rfl

@[simp] theorem server_select : st.ask account.server (.select raw) = .ok () := rfl

/-- A search from UID 1 lists every message. -/
@[simp] theorem server_search (uidnext : ℕ) :
    st.ask account.server (.search raw 1 uidnext) = .ok (.listed (account.listing raw)) := by
  have hall : (account.listing raw).filter (fun u => 1 ≤ u ∨ ∀ u' ∈ account.listing raw, u' ≤ u) =
      account.listing raw := by
    apply List.filter_eq_self.mpr
    intro u hu
    simp only [decide_eq_true_eq]
    exact Or.inl (account.listing_pos hu)
  simp only [ImapScan.ask, server, hall]

@[simp] theorem server_fetch (u : ℕ) : st.ask account.server (.fetch raw u) =
    .ok (.parts ((account.fetchOrder raw u).parts (account.flags raw u) (account.body raw u))) :=
  rfl

@[simp] theorem inventory_status :
    st'.ask account.inventory (.status raw) = .ok (account.status raw) := rfl

@[simp] theorem inventory_select : st'.ask account.inventory (.select raw) = .ok () := rfl

@[simp] theorem inventory_search :
    st'.ask account.inventory (.searchAll raw) = .ok (.listed (account.listing raw)) := rfl

@[simp] theorem inventory_fetch (u : ℕ) : st'.ask account.inventory (.fetchHeaders raw u) =
    .ok (.parts
      ((account.inventoryOrder raw u).parts (account.flags raw u) (account.headers raw u))) := rfl

end answers

/-- The folders of a pass with the messages in them, in the order of the two loops. -/
def messages (excludeFolders : List String) : List (ImapFolder × ℕ) :=
  (listedFolders excludeFolders account.lines).flatMap
    (fun folder => (account.listing folder.rawName).map (fun u => (folder, u)))

def flagText (raw : String) (u : ℕ) : String := " ".intercalate (account.flags raw u)

/-- The columns of a manifest row that describe what will be imported. -/
def rowOf (m : SourceMessage) : String × List String × Bool × Bool :=
  (m.sourceId, m.folderPaths, m.isRead, m.isFlagged)

def sourceId (m : ImapFolder × ℕ) : String :=
  imapSourceId m.1.rawName (readStatus (account.status m.1.rawName)).1 m.2

/-- The row of what `iter_messages` yields. A body without a byte makes it a stub. -/
def migratedRow (m : ImapFolder × ℕ) : String × List String × Bool × Bool :=
  let text := account.flagText m.1.rawName m.2
  if account.body m.1.rawName m.2 = [] then
    (account.sourceId m, [m.1.mappedPath], true, false)
  else (account.sourceId m, [m.1.mappedPath], isIn "\\Seen" text, isIn "\\Flagged" text)

/-- The row of what `inventory_messages` yields. -/
def inventoryRow (m : ImapFolder × ℕ) : String × List String × Bool × Bool :=
  (account.sourceId m, [m.1.mappedPath],
    account.inventoryOrder m.1.rawName m.2 = .flagsFirst ∧
      isIn "\\Seen" (account.flagText m.1.rawName m.2) = true, false)

variable (messageIdOf : Bytes → Option String)

theorem fetchMessage_row (m : ImapFolder × ℕ) :
    ∃ message, fetchMessage messageIdOf m.1 m.2 (readStatus (account.status m.1.rawName)).1
        (.ok (.parts ((account.fetchOrder m.1.rawName m.2).parts (account.flags m.1.rawName m.2)
          (account.body m.1.rawName m.2)))) = .ok message ∧
      rowOf message = account.migratedRow m := by
  -- `iter_messages` looks through all parts, so their order does not matter
  have hbody : ∀ order : FetchOrder, ((order.parts (account.flags m.1.rawName m.2)
      (account.body m.1.rawName m.2)).filterMap (·.literal)).getLast?.getD [] =
        account.body m.1.rawName m.2 := by
    intro order
    cases order <;> rfl
  have hflags : ∀ order : FetchOrder, (order.parts (account.flags m.1.rawName m.2)
      (account.body m.1.rawName m.2)).flatMap (·.flags) = account.flags m.1.rawName m.2 := by
    intro order
    cases order <;> simp [FetchOrder.parts]
  simp only [fetchMessage, hbody, hflags, migratedRow]
  by_cases hempty : account.body m.1.rawName m.2 = []
  · -- a message without content becomes a stub with flags of its own
    simp only [hempty, if_true]
    exact ⟨_, rfl, rfl⟩
  · simp only [hempty, if_false]
    exact ⟨_, rfl, rfl⟩

theorem inventoryMessage_row (m : ImapFolder × ℕ) :
    ∃ message, inventoryMessage m.1 m.2 (readStatus (account.status m.1.rawName)).1
        (.ok (.parts ((account.inventoryOrder m.1.rawName m.2).parts
          (account.flags m.1.rawName m.2) (account.headers m.1.rawName m.2)))) = .ok message ∧
      rowOf message = account.inventoryRow m := by
  refine ⟨_, rfl, ?_⟩
  cases horder : account.inventoryOrder m.1.rawName m.2
  · simp [rowOf, inventoryRow, horder, FetchOrder.parts, sourceId, flagText]
  -- the flags stand in a part without a literal
  · simp only [rowOf, inventoryRow, horder, FetchOrder.parts, sourceId]
    rfl

/-- The rows of a folder's messages. -/
theorem messages_map (excludeFolders : List String)
    (row : ImapFolder × ℕ → String × List String × Bool × Bool) :
    (account.messages excludeFolders).map row = (listedFolders excludeFolders account.lines).flatMap
      (fun folder => (account.listing folder.rawName).flatMap (fun u => [row (folder, u)])) := by
  simp only [messages, List.map_flatMap, List.map_map, ← List.map_eq_flatMap]
  rfl

theorem fetchUid_emits (folder : ImapFolder) (u : ℕ) (hu : u ∈ account.listing folder.rawName)
    (st : ImapScan) (hst : st.raised = none) :
    let st' := fetchUid account.server messageIdOf folder
      (readStatus (account.status folder.rawName)).1 1 st u
    st'.raised = none ∧ st'.yielded.map (rowOf ·.message) =
      st.yielded.map (rowOf ·.message) ++ [account.migratedRow (folder, u)] := by
  -- no UID is below the start of a full pass
  have hpos := account.listing_pos hu
  obtain ⟨message, hmsg, hrow⟩ := account.fetchMessage_row messageIdOf (folder, u)
  have hlt : ¬ u < 1 := by omega
  simp only [fetchUid, hst, Option.isSome_none, Bool.false_eq_true, if_false, hlt, server_fetch,
    hmsg]
  exact ⟨hst, by simp [hrow]⟩

theorem scanFolder_emits (folder : ImapFolder) (st : ImapScan) (hst : st.raised = none) :
    let st' := scanFolder account.server messageIdOf ∅ st folder
    st'.raised = none ∧ st'.yielded.map (rowOf ·.message) =
      st.yielded.map (rowOf ·.message) ++
        (account.listing folder.rawName).flatMap (fun u => [account.migratedRow (folder, u)]) := by
  simp only [scanFolder, hst, Option.isSome_none, Bool.false_eq_true, if_false, server_status,
    AList.lookup_empty, searchFolder, server_select, server_search]
  refine Runs.foldl_emits _ (fun st : ImapScan => st.raised = none)
    (fun st => st.yielded.map (rowOf ·.message)) _ _
    (fun st u hu hst => account.fetchUid_emits messageIdOf folder u hu st hst) _ ?_
  exact hst

theorem inventoryUid_emits (folder : ImapFolder) (u : ℕ) (st : InventoryScan)
    (hst : st.raised = none) :
    let st' := inventoryUid account.inventory folder
      (readStatus (account.status folder.rawName)).1 st u
    st'.raised = none ∧ st'.yielded.map rowOf =
      st.yielded.map rowOf ++ [account.inventoryRow (folder, u)] := by
  obtain ⟨message, hmsg, hrow⟩ := account.inventoryMessage_row (folder, u)
  simp only [inventoryUid, hst, Option.isSome_none, Bool.false_eq_true, if_false, inventory_fetch,
    hmsg]
  exact ⟨hst, by simp [hrow]⟩

theorem inventoryFolder_emits (folder : ImapFolder) (st : InventoryScan) (hst : st.raised = none) :
    let st' := inventoryFolder account.inventory st folder
    st'.raised = none ∧ st'.yielded.map rowOf = st.yielded.map rowOf ++
      (account.listing folder.rawName).flatMap (fun u => [account.inventoryRow (folder, u)]) := by
  simp only [inventoryFolder, hst, Option.isSome_none, Bool.false_eq_true, if_false,
    inventory_status, inventory_select, inventory_search]
  refine Runs.foldl_emits _ (fun st : InventoryScan => st.raised = none)
    (fun st => st.yielded.map rowOf) _ _
    (fun st u _ hst => account.inventoryUid_emits folder u st hst) _ ?_
  exact hst

variable (excludeFolders : List String)

/-- What `iter_messages` yields in a full pass, message by message. -/
theorem iterMessages_rows :
    (iterMessages account.server messageIdOf excludeFolders ∅).raised = none ∧
      (iterMessages account.server messageIdOf excludeFolders ∅).yielded.map (rowOf ·.message) =
        (account.messages excludeFolders).map account.migratedRow := by
  have hloop := Runs.foldl_emits (scanFolder account.server messageIdOf ∅)
    (fun st : ImapScan => st.raised = none) (fun st => st.yielded.map (rowOf ·.message)) _
    (listedFolders excludeFolders account.lines)
    (fun st folder _ hst => account.scanFolder_emits messageIdOf folder st hst)
    (ImapScan.after account.server {} .list) rfl
  rw [account.messages_map]
  exact hloop

/-- What `inventory_messages` yields, message by message. -/
theorem inventoryMessages_rows :
    (inventoryMessages account.inventory excludeFolders).raised = none ∧
      (inventoryMessages account.inventory excludeFolders).yielded.map rowOf =
        (account.messages excludeFolders).map account.inventoryRow := by
  have hloop := Runs.foldl_emits (inventoryFolder account.inventory)
    (fun st : InventoryScan => st.raised = none) (fun st => st.yielded.map rowOf) _
    (listedFolders excludeFolders account.lines)
    (fun st folder _ hst => account.inventoryFolder_emits folder st hst)
    (InventoryScan.after account.inventory {} .list) rfl
  rw [account.messages_map]
  exact hloop

/-- The dry run yields the rows that the migration will. -/
def DryRunAgrees : Prop :=
  (inventoryMessages account.inventory excludeFolders).yielded.map rowOf =
    (iterMessages account.server messageIdOf excludeFolders ∅).yielded.map (rowOf ·.message)

/-- The flags of the message are where the dry run sees them. -/
structure FlagsSeen (m : ImapFolder × ℕ) : Prop where
  unflagged : account.body m.1.rawName m.2 ≠ [] →
    isIn "\\Flagged" (account.flagText m.1.rawName m.2) = false
  read : account.body m.1.rawName m.2 = [] ∨
      isIn "\\Seen" (account.flagText m.1.rawName m.2) = true →
    isIn "\\Seen" (account.flagText m.1.rawName m.2) = true ∧
      account.inventoryOrder m.1.rawName m.2 = .flagsFirst

theorem inventoryRow_eq_iff (m : ImapFolder × ℕ) :
    account.inventoryRow m = account.migratedRow m ↔ account.FlagsSeen m := by
  simp only [inventoryRow, migratedRow]
  have hstruct : account.FlagsSeen m ↔ (account.body m.1.rawName m.2 ≠ [] →
      isIn "\\Flagged" (account.flagText m.1.rawName m.2) = false) ∧
      (account.body m.1.rawName m.2 = [] ∨
        isIn "\\Seen" (account.flagText m.1.rawName m.2) = true →
        isIn "\\Seen" (account.flagText m.1.rawName m.2) = true ∧
          account.inventoryOrder m.1.rawName m.2 = .flagsFirst) :=
    ⟨fun h => ⟨h.1, h.2⟩, fun h => ⟨h.1, h.2⟩⟩
  rw [hstruct]
  -- the two rows differ in the read and the flagged column at most
  by_cases hempty : account.body m.1.rawName m.2 = []
  · simp [hempty, and_comm]
  · cases isIn "\\Seen" (account.flagText m.1.rawName m.2) <;>
      cases isIn "\\Flagged" (account.flagText m.1.rawName m.2) <;> simp [hempty]

end SteadyAccount

/-- The dry run agrees with the migration exactly when no message of a listed folder has flags
it does not see. -/
theorem dry_run_agrees_iff (account : SteadyAccount) (messageIdOf : Bytes → Option String)
    (excludeFolders : List String) :
    account.DryRunAgrees messageIdOf excludeFolders ↔
      ∀ m ∈ account.messages excludeFolders, account.FlagsSeen m := by
  rw [SteadyAccount.DryRunAgrees, (account.iterMessages_rows messageIdOf excludeFolders).2,
    (account.inventoryMessages_rows excludeFolders).2, List.map_inj_left]
  exact forall₂_congr (fun m _ => account.inventoryRow_eq_iff m)

/-- An account with one message, in its folder of sent mail. -/
def oneMessage (flags : List String) (order : FetchOrder) : SteadyAccount where
  lines := [some ⟨"\\Sent", "/", "Sent"⟩]
  box _ := inbox
  status _ := .items (some 7) (some 2)
  listing _ := [1]
  flags _ _ := flags
  body _ _ := [0]
  headers _ _ := [0]
  fetchOrder _ _ := order
  inventoryOrder _ _ := order
  mem_listing _ u := by simp [inbox]
  status_uidvalidity _ v n h := by cases h; rfl
  status_uidnext _ v n h := by cases h; rfl

/-- A starred message is not starred in the dry run, and a read one whose flags come after the
literal is unread in it. -/
theorem dry_run_disagrees :
    ¬ (oneMessage ["\\Flagged"] .flagsFirst).DryRunAgrees (fun _ => none) [] ∧
      ¬ (oneMessage ["\\Seen"] .literalFirst).DryRunAgrees (fun _ => none) [] := by
  unfold SteadyAccount.DryRunAgrees
  exact ⟨by decide, by decide⟩

end GwsMigrator
