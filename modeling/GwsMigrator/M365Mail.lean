import GwsMigrator.DeltaFeed
import GwsMigrator.FolderPaths
import GwsMigrator.MailSources
import GwsMigrator.TreeReads

/-! The mail of `connectors/m365.py`: the walk through the mail folders, the messages with what they
are placed by, the dry run beside the real one, and that nothing is lost behind the mail cursor. -/
namespace GwsMigrator.M365Mail
open Program PagedReads
open DeltaFeed (truthy)

/-- A mailFolder, with the keys that `_folder_paths` looks at. -/
structure FolderItem where
  id : String
  displayName : Option String := none
  wellKnownName : Option String := none

/-- A message of a listing, with the keys that `iter_messages` looks at. -/
structure MessageItem where
  id : String
  parentFolderId : Option String := none
  categories : List String := []
  isRead : Bool := true
  flagStatus : Option String := none

structure Page (ι : Type) where
  value : List ι
  nextLink : Option String := none

/-- How `get_bytes` fails: an HTTPStatusError, or anything else. -/
inductive FetchError where
  | status (code : ℕ) (body : String)
  | other (text : String)
deriving DecidableEq, Repr

/-- What the source asks Graph for, and the clock. -/
inductive M365Request where
  | getUser
  | now
  | mailFolders (uid container : String) (link : Option Token)
  | messages (uid : String) (since link : Option Token)
  | value (uid msgId : String)

abbrev M365Request.Ans : M365Request → Type
  | .getUser => Except Exc String
  | .now => Token
  | .mailFolders .. => Except Exc (Page FolderItem)
  | .messages .. => Except Exc (Page MessageItem)
  | .value .. => Except FetchError Bytes

abbrev M365Program := Program M365Request.Ans

def Page.read {ι : Type} (page : Page ι) : List ι × Option Token :=
  (page.value, page.nextLink.bind truthy)

/-- The path of a folder below another one. -/
def fullPath (parentPath : String) (f : FolderItem) : String :=
  let name := mailFolderName (parentPath = "") f.id f.displayName f.wellKnownName
  if parentPath = "" then name else parentPath ++ "\\" ++ name

/-- A call of `walk`: the parent's path, and the container that it reads. -/
abbrev WalkCall := String × String

def foldersPage (uid : String) (call : WalkCall) (link : Option Token) :
    M365Program (Except Exc (List FolderItem × Option Token)) := do
  let answer ← perform (M365Request.mailFolders uid call.2 link)
  pure (answer.map Page.read)

def walkBelow (call : WalkCall) (f : FolderItem) : WalkCall :=
  (fullPath call.1 f, "mailFolders/" ++ f.id ++ "/childFolders")

/-- `_folder_paths`: the entries of `paths` in the order they are set. -/
def folderPaths (uid : String) (fuel : ℕ) :
    M365Program (Yields (String × String) (Option Exc)) :=
  walk walkBelow (fun call f => (f.id, fullPath call.1 f)) (foldersPage uid) fuel
    ("", "mailFolders")

/-- The folder a message is placed in. A later entry for an id takes the place of an earlier
one. -/
def folderOf (paths : List (String × String)) (msg : MessageItem) : String :=
  (paths.reverse.lookup (msg.parentFolderId.getD "")).getD "Inbox"

/-- What the loop yields for a message of the listing. -/
def yieldsOf (paths : List (String × String)) (msg : MessageItem) :
    Except FetchError Bytes → Yields SourceMessage Exc
  | .error (.status code body) =>
    if code = 404 then ([], none)
    else
      ([{ sourceId := msg.id
          folderPaths := [folderOf paths msg]
          fetchError := toString code ++ ": " ++ String.ofList (body.toList.take 200) }], none)
  | .error (.other text) => ([], some (.other text))
  | .ok raw =>
    ([{ sourceId := msg.id
        rawMime := raw
        folderPaths := [folderOf paths msg]
        categories := msg.categories
        isRead := msg.isRead
        isFlagged := msg.flagStatus = some "flagged"
        dedupHash := msg.id }], none)

def yieldMessage (uid : String) (paths : List (String × String)) (msg : MessageItem) :
    M365Program (Yields SourceMessage Exc) := do
  let raw ← perform (M365Request.value uid msg.id)
  pure (yieldsOf paths msg raw)

def messagesPage (uid : String) (since link : Option Token) :
    M365Program (Except Exc (List MessageItem × Option Token)) := do
  let answer ← perform (M365Request.messages uid since link)
  pure (answer.map Page.read)

/-- `iter_messages`, run to its end. The cursor is the time before anything is read. -/
def iterMessages (since : Option Token) (fuel : ℕ) :
    M365Program (Option (Enumeration SourceMessage)) := do
  match ← perform M365Request.getUser with
  | .error e => pure (some { items := [], raised := some e })
  | .ok uid => do
    let cursor ← perform M365Request.now
    match ← folderPaths uid fuel with
    | (_, some none) => pure none
    | (_, some (some e)) =>
      pure (some { items := [], raised := some e, lastCursor := some cursor })
    | (paths, none) => do
      match ← readPages (messagesPage uid since) (yieldMessage uid paths) fuel none with
      | none => pure none
      | some (messages, e) =>
        pure (some { items := messages, raised := e, lastCursor := some cursor })

/-- A row of the dry run. -/
def inventoryRow (paths : List (String × String)) (msg : MessageItem) : SourceMessage where
  sourceId := msg.id
  folderPaths := [folderOf paths msg]
  isRead := msg.isRead

/-- `inventory_messages`, run to its end. -/
def inventoryMessages (fuel : ℕ) : M365Program (Option (Yields SourceMessage Exc)) := do
  match ← perform M365Request.getUser with
  | .error e => pure (some ([], some e))
  | .ok uid => do
    match ← folderPaths uid fuel with
    | (_, some none) => pure none
    | (_, some (some e)) => pure (some ([], some e))
    | (paths, none) =>
      readPages (messagesPage uid none) (fun msg => pure ([inventoryRow paths msg], none)) fuel none

mutual

/-- A tree of mail folders as its listings show it. -/
def treesOf : List MailFolder → List (Rose FolderItem)
  | [] => []
  | folder :: folders => treeOf folder :: treesOf folders

def treeOf : MailFolder → Rose FolderItem
  | .mk id displayName wellKnownName childFolders =>
    .node ⟨id, displayName, wellKnownName⟩ (treesOf childFolders)

end

mutual

/-- The walk is the one through the tree. -/
theorem forest_treesOf (parentPath container : String) : ∀ folders : List MailFolder,
    forest walkBelow (fun call f => (f.id, fullPath call.1 f)) (parentPath, container)
      (treesOf folders) = walkMailFolders parentPath folders
  | [] => by rw [treesOf, forest, walkMailFolders]
  | folder :: folders => by
    rw [treesOf, forest, walkMailFolders, tree_treeOf parentPath container folder,
      forest_treesOf parentPath container folders]

theorem tree_treeOf (parentPath container : String) : ∀ folder : MailFolder,
    tree walkBelow (fun call f => (f.id, fullPath call.1 f)) (parentPath, container)
      (treeOf folder) = walkMailFolder parentPath folder
  | .mk id displayName wellKnownName childFolders => by
    rw [treeOf, tree, walkMailFolder, walkBelow, forest_treesOf]
    rfl

end

section still
variable {σ : Type} {serve : (r : M365Request) → σ → r.Ans × σ} {I : σ → Prop}

/-- A mailbox that does not change while it is read: its folders are a tree, it shows these
messages, and each has a value. -/
structure Still (serve : (r : M365Request) → σ → r.Ans × σ) (I : σ → Prop) (uid : String)
    (folders : List MailFolder) (since : Option Token) (messages : List MessageItem)
    (value : String → Except FetchError Bytes) : Prop where
  keeps : ∀ r s, I s → I (serve r s).2
  user : ∀ s, I s → (serve .getUser s).1 = .ok uid
  walks : ShowsForest walkBelow (foldersPage uid) serve I ("", "mailFolders") (treesOf folders)
  lists : Shows serve (messagesPage uid since) I none messages
  fetched : ∀ s, I s → ∀ msg ∈ messages, (serve (.value uid msg.id) s).1 = value msg.id

variable {uid : String} {folders : List MailFolder} {messages : List MessageItem}
  {value : String → Except FetchError Bytes}

theorem yieldsOf_ends {paths : List (String × String)} {msg : MessageItem}
    {answer : Except FetchError Bytes} (h : ∀ text, answer ≠ .error (.other text)) :
    (yieldsOf paths msg answer).2 = none := by
  cases answer with
  | ok raw => rfl
  | error e =>
    cases e with
    | status code body =>
      simp only [yieldsOf]
      split <;> rfl
    | other text => exact absurd rfl (h text)

/-- The walk and then the listing, from any state of a still mailbox. -/
theorem Still.reads {since : Option Token} (h : Still serve I uid folders since messages value) :
    ∃ n, ∀ fuel, n ≤ fuel →
      (∀ s, I s → ((folderPaths uid fuel).run serve s).1 = (walkMailFolders "" folders, none)) ∧
      ∀ (body : MessageItem → M365Program (Yields SourceMessage Exc))
        (f : MessageItem → List SourceMessage),
        (∀ msg ∈ messages, ∀ s, I s → ((body msg).run serve s).1 = (f msg, none)) →
        ∀ s, I s → ((readPages (messagesPage uid since) body fuel none).run serve s).1 =
          some (messages.flatMap f, none) := by
  obtain ⟨n, hn⟩ := h.walks.walk (fun call f => (f.id, fullPath call.1 f)) h.keeps
  obtain ⟨n', hn'⟩ := h.lists.readPages SourceMessage h.keeps id (List.map_id messages)
  refine ⟨max n n', fun fuel hfuel => ⟨fun s hs => ?_, fun body f hbody s hs => ?_⟩⟩
  · have hwalk := hn fuel (by omega) s hs
    rwa [forest_treesOf] at hwalk
  · exact hn' body f hbody fuel (by omega) s hs

/-- What a full pass yields is what the folder tree and the values say. -/
theorem Still.iterMessages_eq {since : Option Token}
    (h : Still serve I uid folders since messages value)
    (hvalue : ∀ msg ∈ messages, ∀ text, value msg.id ≠ .error (.other text)) :
    ∃ n, ∀ fuel, n ≤ fuel → ∀ s, I s → ((iterMessages since fuel).run serve s).1 = some
      { items := messages.flatMap (fun msg =>
          (yieldsOf (walkMailFolders "" folders) msg (value msg.id)).1)
        lastCursor := some (serve .now (serve .getUser s).2).1 } := by
  obtain ⟨n, hn⟩ := h.reads
  refine ⟨n, fun fuel hfuel s hs => ?_⟩
  obtain ⟨hwalk, hlist⟩ := hn fuel hfuel
  have hs' := h.keeps .now _ (h.keeps .getUser s hs)
  have hbody : ∀ msg ∈ messages, ∀ s, I s →
      ((yieldMessage uid (walkMailFolders "" folders) msg).run serve s).1 =
        ((yieldsOf (walkMailFolders "" folders) msg (value msg.id)).1, none) := by
    intro msg hmsg s hs
    change yieldsOf _ msg (serve (.value uid msg.id) s).1 = _
    rw [h.fetched s hs msg hmsg]
    exact Prod.ext rfl (yieldsOf_ends (hvalue msg hmsg))
  rw [iterMessages, perform_bind, run_request, h.user s hs]
  simp only [perform_bind, run_request, run_bind]
  rw [hwalk _ hs']
  simp only [run_bind]
  rw [hlist _ _ hbody _ (run_keeps I h.keeps _ hs')]
  rfl

theorem Still.inventoryMessages_eq (h : Still serve I uid folders none messages value) :
    ∃ n, ∀ fuel, n ≤ fuel → ∀ s, I s → ((inventoryMessages fuel).run serve s).1 =
      some (messages.map (inventoryRow (walkMailFolders "" folders)), none) := by
  obtain ⟨n, hn⟩ := h.reads
  refine ⟨n, fun fuel hfuel s hs => ?_⟩
  obtain ⟨hwalk, hlist⟩ := hn fuel hfuel
  have hs' := h.keeps .getUser s hs
  rw [inventoryMessages, perform_bind, run_request, h.user s hs]
  simp only [run_bind]
  rw [hwalk _ hs']
  simp only
  rw [hlist _ (fun msg => [inventoryRow (walkMailFolders "" folders) msg]) (fun _ _ _ _ => rfl) _
    (run_keeps I h.keeps _ hs')]
  rw [← List.map_eq_flatMap]

/-- What a message is known by, where it goes, and whether it is read. -/
def placing (m : SourceMessage) : String × List String × Bool :=
  (m.sourceId, m.folderPaths, m.isRead)

/-- Where the folder tree puts a message. -/
def placingOf (folders : List MailFolder) (msg : MessageItem) : String × List String × Bool :=
  (msg.id, [mailFolderPath folders (msg.parentFolderId.getD "")], msg.isRead)

/-- A message that could not be fetched leaves a stub, unless it has vanished. -/
def leavesStub : Except FetchError Bytes → Bool
  | .error (.status code _) => code ≠ 404
  | _ => false

/-- The three ways in which a message of the listing is handled. -/
theorem yieldsOf_cases (paths : List (String × String)) (msg : MessageItem)
    {answer : Except FetchError Bytes} (h : ∀ text, answer ≠ .error (.other text)) :
    (answer.isOk = true ∧ leavesStub answer = false ∧
      ∃ m, (yieldsOf paths msg answer).1 = [m] ∧ m.fetchError = "" ∧
        placing m = (msg.id, [folderOf paths msg], msg.isRead)) ∨
    (answer.isOk = false ∧ leavesStub answer = true ∧
      ∃ m, (yieldsOf paths msg answer).1 = [m] ∧ m.fetchError ≠ "" ∧ m.sourceId = msg.id) ∨
    (answer.isOk = false ∧ leavesStub answer = false ∧ (yieldsOf paths msg answer).1 = []) := by
  cases answer with
  | ok raw => exact Or.inl ⟨rfl, rfl, _, rfl, rfl, rfl⟩
  | error e =>
    cases e with
    | status code body =>
      by_cases hcode : code = 404
      · refine Or.inr (Or.inr ⟨rfl, by simp [leavesStub, hcode], ?_⟩)
        simp [yieldsOf, hcode]
      · refine Or.inr (Or.inl ⟨rfl, by simp [leavesStub, hcode], _,
          congrArg Prod.fst (if_neg hcode), ?_, rfl⟩)
        · intro hempty
          have hlength := congrArg String.length hempty
          simp [String.length_append] at hlength
    | other text => exact absurd rfl (h text)

/-- Over a mailbox that stands still a full pass and a dry run come to their ends, however its
folders and messages are cut into pages: the dry run has every message, under the path of its
folder in the tree, the pass has those that could be fetched, placed alike, and a stub in its place
for each that failed otherwise than by a 404. -/
theorem m365_mail_placed (h : Still serve I uid folders none messages value)
    (hvalue : ∀ msg ∈ messages, ∀ text, value msg.id ≠ .error (.other text)) :
    ∃ n, ∀ fuel, n ≤ fuel → ∀ s, I s → ∃ items rows cursor,
      ((iterMessages none fuel).run serve s).1 =
        some { items := items, lastCursor := some cursor } ∧
      ((inventoryMessages fuel).run serve s).1 = some (rows, none) ∧
      rows.map placing = messages.map (placingOf folders) ∧
      (items.filter (fun m => m.fetchError = "")).map placing =
        (messages.filter (fun msg => (value msg.id).isOk)).map (placingOf folders) ∧
      (items.filter (fun m => m.fetchError ≠ "")).map SourceMessage.sourceId =
        (messages.filter (fun msg => leavesStub (value msg.id))).map MessageItem.id := by
  obtain ⟨n, hn⟩ := h.iterMessages_eq hvalue
  obtain ⟨n', hn'⟩ := h.inventoryMessages_eq
  refine ⟨max n n', fun fuel hfuel s hs => ⟨_, _, _, hn fuel (by omega) s hs,
    hn' fuel (by omega) s hs, ?_, ?_, ?_⟩⟩
  · rw [List.map_map]
    rfl
  · clear h hn hn'
    induction messages with
    | nil => rfl
    | cons msg rest ih =>
      have hrest := ih (fun msg hmsg => hvalue msg (List.mem_cons_of_mem _ hmsg))
      rw [List.flatMap_cons, List.filter_append, List.map_append, hrest, List.filter_cons]
      rcases yieldsOf_cases (walkMailFolders "" folders) msg
        (hvalue msg List.mem_cons_self) with
        ⟨hok, -, m, hyields, hnone, hplacing⟩ | ⟨hok, -, m, hyields, hsome, -⟩ | ⟨hok, -, hyields⟩
      · rw [hyields, hok, if_pos rfl, List.map_cons, List.filter_cons_of_pos (by simpa using hnone)]
        simp [hplacing, placingOf, mailFolderPath, folderOf]
      · rw [hyields, hok, List.filter_cons_of_neg (by simpa using hsome)]
        rfl
      · rw [hyields, hok]
        rfl
  · clear h hn hn'
    induction messages with
    | nil => rfl
    | cons msg rest ih =>
      have hrest := ih (fun msg hmsg => hvalue msg (List.mem_cons_of_mem _ hmsg))
      rw [List.flatMap_cons, List.filter_append, List.map_append, hrest, List.filter_cons]
      rcases yieldsOf_cases (walkMailFolders "" folders) msg
        (hvalue msg List.mem_cons_self) with
        ⟨-, hstub, m, hyields, hnone, -⟩ | ⟨-, hstub, m, hyields, hsome, hid⟩ | ⟨-, hstub, hyields⟩
      · rw [hyields, hstub, List.filter_cons_of_neg (by simpa using hnone)]
        rfl
      · rw [hyields, hstub, if_pos rfl, List.map_cons,
          List.filter_cons_of_pos (by simpa using hsome)]
        simp [hid]
      · rw [hyields, hstub]
        rfl

end still

/-- A mailbox with a folder in its inbox, and two messages on two pages. -/
def smallMailbox : (r : M365Request) → Unit → r.Ans × Unit
  | .getUser, s => (.ok "u", s)
  | .now, s => (⟨"2024-01-01T00:00:00Z", by decide⟩, s)
  | .mailFolders _ container _, s =>
    if container = "mailFolders" then
      (.ok { value := [⟨"in", some "Posteingang", some "inbox"⟩] }, s)
    else if container = "mailFolders/in/childFolders" then
      (.ok { value := [⟨"w", some "Work", none⟩] }, s)
    else (.ok { value := [] }, s)
  | .messages _ _ none, s =>
    (.ok { value := [{ id := "m1", parentFolderId := some "w" }], nextLink := some "rest" }, s)
  | .messages _ _ (some _), s => (.ok { value := [{ id := "m2", parentFolderId := some "w" }] }, s)
  | .value _ msgId, s => (if msgId = "m1" then .ok [1] else .error (.status 503 "busy"), s)

def smallFolders : List MailFolder :=
  [.mk "in" (some "Posteingang") (some "inbox") [.mk "w" (some "Work") none []]]

theorem smallMailbox_still : Still smallMailbox (fun _ => True) "u" smallFolders none
    [{ id := "m1", parentFolderId := some "w" }, { id := "m2", parentFolderId := some "w" }]
    (fun msgId => if msgId = "m1" then .ok [1] else .error (.status 503 "busy")) where
  keeps _ _ _ := trivial
  user _ _ := rfl
  walks := by
    refine .mk (.last (fun _ _ => rfl)) (fun t ht => ?_)
    obtain rfl := List.mem_singleton.mp ht
    refine .mk (.last (fun _ _ => by rfl)) (fun t ht => ?_)
    obtain rfl := List.mem_singleton.mp ht
    refine .mk (.last (fun _ _ => by rfl)) (fun t ht => ?_)
    cases ht
  lists := @Shows.page _ _ _ _ _ _ _ _ _ none _ [_] _ (fun _ _ => rfl) (.last (fun _ _ => rfl))
  fetched _ _ _ _ := rfl

/-- Both messages are placed in the folder below the inbox, the second as a stub. -/
theorem m365_mail_placed_small : ∃ n, ∀ fuel, n ≤ fuel → ∀ s, ∃ items rows cursor,
    ((iterMessages none fuel).run smallMailbox s).1 =
      some { items := items, lastCursor := some cursor } ∧
    ((inventoryMessages fuel).run smallMailbox s).1 = some (rows, none) ∧
    rows.map placing = [("m1", ["Inbox\\Work"], true), ("m2", ["Inbox\\Work"], true)] ∧
    (items.filter (fun m => m.fetchError = "")).map placing = [("m1", ["Inbox\\Work"], true)] ∧
    (items.filter (fun m => m.fetchError ≠ "")).map SourceMessage.sourceId = ["m2"] := by
  obtain ⟨n, hn⟩ := m365_mail_placed smallMailbox_still (by simp)
  refine ⟨n, fun fuel hfuel s => ?_⟩
  obtain ⟨items, rows, cursor, hitems, hrows, hdry, hreal, hstubs⟩ := hn fuel hfuel s trivial
  exact ⟨items, rows, cursor, hitems, hrows, hdry, hreal, hstubs⟩

/-! The mailbox while it is read: what a cursor leaves behind. -/

/-- Graph over one mailbox, as far as its answers are relied on. `kept` are the messages that are
not deleted, `arrived` all messages in the order in which they came, `received` their
receivedDateTime and `mark` the instant that a text stands for. The clock of the machine is not
ahead of the one that stamps the messages. `owes` is what the pages from a link on still have to
show. -/
structure M365Host (σ : Type) where
  serve : (r : M365Request) → σ → r.Ans × σ
  kept : String → Prop
  arrived : σ → List String
  received : String → ℤ
  clock : σ → ℤ
  mark : String → ℤ
  owes : σ → Option Token → Token → String → Prop
  arrives : ∀ r s, arrived s <+: arrived (serve r s).2
  ticks : ∀ r s, clock s ≤ clock (serve r s).2
  stamped : ∀ r s id, id ∈ arrived (serve r s).2 → id ∉ arrived s → clock s ≤ received id
  told : ∀ s, mark (serve .now s).1.val ≤ clock s
  waits : ∀ r s since token id, owes s since token id → owes (serve r s).2 since token id
  listed : ∀ s uid (since link : Option Token) page id, kept id → id ∈ arrived s →
    (∀ c, since = some c → mark c ≤ received id) →
    (∀ token, link = some token → owes s since token id) →
    (serve (.messages uid since link) s).1 = .ok page →
    (∃ msg ∈ page.value, msg.id = id) ∨ ∃ token, page.nextLink.bind truthy = some token ∧
      owes (serve (.messages uid since link) s).2 since token id
  fetched : ∀ s uid id body, kept id → id ∈ arrived s →
    (serve (.value uid id) s).1 ≠ .error (.status 404 body)

section moving
variable {σ : Type} (host : M365Host σ)

/-- How the mailbox moves on. -/
structure Moves (s s' : σ) : Prop where
  arrived : host.arrived s <+: host.arrived s'
  clock : host.clock s ≤ host.clock s'
  stamped : ∀ id ∈ host.arrived s', id ∉ host.arrived s → host.clock s ≤ host.received id

variable {host}

theorem Moves.refl (s : σ) : Moves host s s :=
  ⟨List.prefix_refl _, le_refl _, fun _ hid hnot => absurd hid hnot⟩

theorem Moves.trans {s₁ s₂ s₃ : σ} (h : Moves host s₁ s₂) (h' : Moves host s₂ s₃) :
    Moves host s₁ s₃ := by
  refine ⟨h.arrived.trans h'.arrived, h.clock.trans h'.clock, fun id hid hnot => ?_⟩
  by_cases hmid : id ∈ host.arrived s₂
  · exact h.stamped id hmid hnot
  · exact h.clock.trans (h'.stamped id hid hmid)

variable (host) in
theorem moves_serve (r : M365Request) (s : σ) : Moves host s (host.serve r s).2 :=
  ⟨host.arrives r s, host.ticks r s, host.stamped r s⟩

variable (host) in
theorem run_moves {α : Type} (p : M365Program α) (s : σ) :
    Moves host s (p.run host.serve s).2 :=
  run_keeps (fun s' => Moves host s s') (fun r s' h => h.trans (moves_serve host r s')) p (.refl s)

theorem yieldsOf_some {paths : List (String × String)} {msg : MessageItem}
    {answer : Except FetchError Bytes} (h404 : ∀ body, answer ≠ .error (.status 404 body))
    (hend : (yieldsOf paths msg answer).2 = none) :
    ∃ m ∈ (yieldsOf paths msg answer).1, m.sourceId = msg.id := by
  cases answer with
  | ok raw => exact ⟨_, List.mem_singleton_self _, rfl⟩
  | error e =>
    cases e with
    | status code body =>
      have hcode : code ≠ 404 := by
        rintro rfl
        exact h404 body rfl
      simp [yieldsOf, hcode]
    | other text => cases hend

/-- What is kept, has arrived and passes the filter is owed by a listing. -/
theorem listing_owing {uid : String} {paths : List (String × String)} {since : Option Token}
    {id : String} (hkept : host.kept id)
    (hsince : ∀ c, since = some c → host.mark c.val ≤ host.received id) :
    Owing host.serve (messagesPage uid since) (yieldMessage uid paths)
      (fun s => id ∈ host.arrived s) (fun s link => ∀ t, link = some t → host.owes s since t id)
      (fun msg => msg.id = id) (fun m => m.sourceId = id) where
  keeps r s h := (host.arrives r s).subset h
  waits r s token h howes t ht := host.waits r s since t id (howes t ht)
  pages s link xs next h howes hpage := by
    simp only [messagesPage, perform_bind, run_request] at hpage ⊢
    cases hanswer : (host.serve (.messages uid since link) s).1 with
    | error e =>
      rw [hanswer] at hpage
      cases hpage
    | ok page =>
      rw [hanswer] at hpage
      obtain ⟨rfl, rfl⟩ := Prod.mk.inj (Except.ok.inj hpage)
      rcases host.listed s uid since link page id hkept h hsince howes hanswer with
        hmsg | ⟨t, ht, howes'⟩
      · exact Or.inl hmsg
      · refine Or.inr ⟨t, ht, fun t' ht' => ?_⟩
        rw [ht] at ht'
        obtain rfl := Option.some.inj ht'
        exact howes'
  yields s msg h hmsg hend := by
    subst hmsg
    exact yieldsOf_some (fun body => host.fetched s uid msg.id body hkept h) hend

/-- A run of `iter_messages` that comes to its end, with the mailbox moving on meanwhile. -/
def Fetches (host : M365Host σ) (since : Option Token) (s : σ) (e : Enumeration SourceMessage)
    (s' : σ) : Prop :=
  ∃ fuel, (iterMessages since fuel).run host.serve s = (some e, s')

/-- How a run goes: the user is not found, or the time is taken, and then the folders and the
messages are read. -/
theorem fetches_cases {since : Option Token} {s s' : σ} {e : Enumeration SourceMessage}
    (h : Fetches host since s e s') :
    (e.raised.isSome = true ∧ e.lastCursor = none) ∨
    ∃ c s₁, e.lastCursor = some c ∧ Moves host s s₁ ∧ host.mark c.val ≤ host.clock s₁ ∧
      Moves host s₁ s' ∧
      (e.raised = none → ∃ uid paths fuel s₂, Moves host s₁ s₂ ∧
        ((readPages (messagesPage uid since) (yieldMessage uid paths) fuel none).run host.serve
          s₂).1 = some (e.items, none)) := by
  obtain ⟨fuel, hrun⟩ := h
  rw [iterMessages, perform_bind, run_request] at hrun
  have hasked := moves_serve host .getUser s
  cases huser : (host.serve .getUser s).1 with
  | error e' =>
    rw [huser] at hrun
    obtain rfl := Option.some.inj (congrArg Prod.fst hrun)
    exact Or.inl ⟨rfl, rfl⟩
  | ok uid =>
    rw [huser] at hrun
    simp only [perform_bind, run_request, run_bind] at hrun
    generalize (host.serve .getUser s).2 = s₁ at hrun hasked
    have htold := host.told s₁
    have hclock := moves_serve host .now s₁
    generalize host.serve .now s₁ = now at hrun htold hclock
    obtain ⟨c, s₂⟩ := now
    have hwalked := run_moves host (folderPaths uid fuel) s₂
    rcases hwalk : (folderPaths uid fuel).run host.serve s₂ with ⟨⟨paths, e' | e'⟩, s₃⟩
    · rw [hwalk] at hrun hwalked
      simp only [run_bind] at hrun
      have hlisted := run_moves host
        (readPages (messagesPage uid since) (yieldMessage uid paths) fuel none) s₃
      rcases hread : (readPages (messagesPage uid since) (yieldMessage uid paths) fuel none).run
        host.serve s₃ with ⟨_ | ⟨messages, raised⟩, s₄⟩
      · rw [hread] at hrun
        cases hrun
      · rw [hread] at hrun hlisted
        obtain ⟨he, rfl⟩ := Prod.mk.inj hrun
        obtain rfl := Option.some.inj he
        refine Or.inr ⟨c, s₁, rfl, hasked, htold, hclock.trans (hwalked.trans hlisted), ?_⟩
        rintro rfl
        exact ⟨uid, paths, fuel, s₃, hclock.trans hwalked, by rw [hread]⟩
    · rw [hwalk] at hrun hwalked
      cases e' with
      | none => cases hrun
      | some e' =>
        obtain ⟨he, rfl⟩ := Prod.mk.inj hrun
        obtain rfl := Option.some.inj he
        exact Or.inr ⟨c, s₁, rfl, hasked, htold, hclock.trans hwalked, fun hraised => by
          cases hraised⟩

/-- The mailbox as a source of `run_mail`. A cursor leaves behind what was received before it. -/
def mailFeed (host : M365Host σ) : MailFeed σ where
  fetches := Fetches host
  moves := Moves host
  arrived s id := host.kept id ∧ id ∈ host.arrived s
  issued s c := host.mark c.val ≤ host.clock s
  covered s c id := host.kept id ∧ id ∈ host.arrived s ∧ host.received id < host.mark c.val
  fetches_moves := by
    rintro since s e s' ⟨fuel, hrun⟩
    have hmoved := run_moves host (iterMessages since fuel) s
    rwa [hrun] at hmoved
  issued_moves hmoves hissued := hissued.trans hmoves.clock
  covered_moves := by
    intro s s' c id hmoves hissued hcovered
    obtain ⟨hkept, hid, hbefore⟩ := hcovered
    refine ⟨hkept, ?_, hbefore⟩
    by_contra hnot
    have hstamp := hmoves.stamped id hid hnot
    omega
  issues := by
    intro since s e s' c hfetch hc
    rcases fetches_cases hfetch with ⟨-, hnone⟩ | ⟨c', s₁, hc', -, hmark, hmoved, -⟩
    · rw [hnone] at hc
      cases hc
    · obtain rfl := Option.some.inj (hc.symm.trans hc')
      exact hmark.trans hmoved.clock
  complete := by
    intro since s e s' c id hfetch hissued hraised hc hcovered
    obtain ⟨hkept, hid, hbefore⟩ := hcovered
    rcases fetches_cases hfetch with ⟨-, hnone⟩ | ⟨c', s₁, hc', hstart, hmark, hmoved, hread⟩
    · rw [hnone] at hc
      cases hc
    · obtain rfl := Option.some.inj (hc.symm.trans hc')
      obtain ⟨uid, paths, fuel, s₂, hmid, hrun⟩ := hread hraised
      -- what was received before the cursor was there when the time was taken
      have hthere : id ∈ host.arrived s₁ := by
        by_contra hnot
        have hstamp := hmoved.stamped id hid hnot
        omega
      by_cases hold : ∃ c₀, since = some c₀ ∧ host.received id < host.mark c₀.val
      · obtain ⟨c₀, rfl, hlt⟩ := hold
        refine Or.inl ⟨c₀, rfl, hkept, ?_, hlt⟩
        by_contra hnot
        have hstamp := hstart.stamped id hthere hnot
        have hmark₀ := hissued c₀ rfl
        omega
      · right
        have hsince : ∀ c₀, since = some c₀ → host.mark c₀.val ≤ host.received id := by
          intro c₀ h₀
          by_contra hlt
          exact hold ⟨c₀, h₀, by omega⟩
        exact (listing_owing hkept hsince).readPages_yields (hmid.arrived.subset hthere)
          (fun _ h => by cases h) hrun
  due := by
    intro c s e s' id hfetch hissued hraised hid hnot
    obtain ⟨hkept, hid⟩ := hid
    rcases fetches_cases hfetch with ⟨hsome, -⟩ | ⟨c', s₁, -, hstart, -, -, hread⟩
    · rw [hraised] at hsome
      cases hsome
    · obtain ⟨uid, paths, fuel, s₂, hmid, hrun⟩ := hread hraised
      have hsince : ∀ c₀, some c = some c₀ → host.mark c₀.val ≤ host.received id := by
        intro c₀ h₀
        obtain rfl := Option.some.inj h₀
        by_contra hlt
        exact hnot ⟨hkept, hid, by omega⟩
      exact (listing_owing hkept hsince).readPages_yields
        ((hstart.trans hmid).arrived.subset hid) (fun _ h => by cases h) hrun

end moving

/-- No message of a Microsoft 365 mailbox is lost behind the mail cursor, whatever arrives or is
deleted between any two requests and whatever calls fail: all that stays in the mailbox and was
received before the stored time is done, and a delta pass from there that ends by itself yields all
that is not. -/
theorem m365_nothing_lost {σ : Type} (host : M365Host σ) (g : Graph) (user : UserMapping)
    {w : World} {s : σ} (h : (mailFeed host).Reached g user w s) :
    ∀ c, w.db.getCursor ⟨user.sourceId, "mail"⟩ = some c →
      (∀ id, host.kept id → id ∈ host.arrived s → host.received id < host.mark c.val →
        w.db.isDone (messageKey user id) = true) ∧
      ∀ e s', Fetches host (some c) s e s' → e.raised = none →
        ∀ id, host.kept id → id ∈ host.arrived s →
          w.db.isDone (messageKey user id) = false → ∃ m ∈ e.items, m.sourceId = id := by
  intro c hc
  obtain ⟨hdone, hdue⟩ := h.nothing_lost c hc
  exact ⟨fun id hkept hid hbefore => hdone id ⟨hkept, hid, hbefore⟩,
    fun e s' hfetch hraised id hkept hid => hdue e s' hfetch hraised id ⟨hkept, hid⟩⟩

/-- A mailbox to which two messages come, the second at the time that the clock shows. -/
def growingMailbox : (r : M365Request) → ℕ → r.Ans × ℕ
  | .getUser, s => (.ok "u", s)
  | .now, s => (⟨"2024-01-01T00:00:00Z", by decide⟩, s)
  | .mailFolders .., s => (.ok { value := [] }, s)
  | .messages .., s => (.ok { value := (["m1", "m2"].take s).map (fun id => { id := id }) }, s)
  | .value .., s => (.ok [], s)

def growingHost : M365Host ℕ where
  serve := growingMailbox
  kept _ := True
  arrived s := ["m1", "m2"].take s
  received id := if id = "m1" then 0 else 1
  clock _ := 1
  mark _ := 1
  owes _ _ _ _ := False
  arrives r s := by cases r <;> exact List.prefix_refl _
  ticks _ _ := le_refl _
  stamped r s id hid hnot := by cases r <;> exact absurd hid hnot
  told _ := le_refl _
  waits _ _ _ _ _ h := h
  listed s uid since link page id _ hid _ _ hpage := by
    obtain rfl := Except.ok.inj hpage
    exact Or.inl ⟨{ id := id }, List.mem_map_of_mem hid, rfl⟩
  fetched s uid id body _ _ h := by cases h

/-- What a full pass over the first message yields. -/
def firstPass : Enumeration SourceMessage where
  items := [{ sourceId := "m1", folderPaths := ["Inbox"], dedupHash := "m1" }]
  lastCursor := some ⟨"2024-01-01T00:00:00Z", by decide⟩

/-- A message arrives after a full pass: the first one is done, and the second is in every delta
pass that ends by itself. -/
theorem m365_nothing_lost_after_pass :
    let user : UserMapping := ⟨"a@source", "a@dest"⟩
    let w := (runMail calmGraph user .json .full (fun _ => firstPass) {}).world
    w.db.isDone (messageKey user "m1") = true ∧
      ∀ e s', Fetches growingHost (some ⟨"2024-01-01T00:00:00Z", by decide⟩) 2 e s' →
        e.raised = none → ∃ m ∈ e.items, m.sourceId = "m2" := by
  intro user w
  have hpass : Fetches growingHost none 1 firstPass 1 := ⟨3, by rfl⟩
  have hfull : (mailFeed growingHost).Reached calmGraph user w 1 :=
    .passed (.start 1) ⟨.full, .json, fun _ => firstPass⟩
      (fun since hsince => by
        obtain rfl : since = none := (Option.some.inj hsince).symm
        exact hpass)
      (.refl 1)
  have hmoves : Moves growingHost 1 2 := by
    refine ⟨⟨["m2"], rfl⟩, le_refl _, fun id hid hnot => ?_⟩
    have hid' : id = "m1" ∨ id = "m2" := by simpa [growingHost] using hid
    have hnot' : id ≠ "m1" := by simpa [growingHost] using hnot
    simp [growingHost, hnot']
  have hcursor : w.db.getCursor ⟨user.sourceId, "mail"⟩ =
      some ⟨"2024-01-01T00:00:00Z", by decide⟩ := by decide
  obtain ⟨hdone, hdue⟩ := m365_nothing_lost growingHost calmGraph user (.moved hfull hmoves) _
    hcursor
  refine ⟨hdone "m1" trivial (by decide) (by decide), fun e s' hfetch hraised => ?_⟩
  exact hdue e s' hfetch hraised "m2" trivial (by decide) (by decide)

end GwsMigrator.M365Mail
