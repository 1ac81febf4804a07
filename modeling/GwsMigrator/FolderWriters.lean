import GwsMigrator.FolderCalls
import GwsMigrator.PageChains
import GwsMigrator.Programs
import GwsMigrator.Separators
import GwsMigrator.SharePoint

/-! The three writers of folders, request by request, against a server that keeps the names under
a parent apart while another client creates folders too. -/
namespace GwsMigrator.FolderWriters
open Program PageChains Separators

abbrev Params := List (String × String)

/-- The body of the POST for a folder. -/
inductive FolderBody where
  | driveItem (name conflictBehavior : String)
  | displayName (displayName : String)

def FolderBody.name : FolderBody → String
  | .driveItem name _ => name
  | .displayName name => name

inductive FolderRequest where
  | get (url userKey : String) (params : Params)
  | post (path userKey : String) (body : FolderBody)

/-- A page of a listing. -/
structure ListPage where
  value : List Listed
  nextLink : Option String

abbrev FolderRequest.Result : FolderRequest → Type
  | .get .. => ListPage
  | .post .. => Token

abbrev FolderRequest.Ans (r : FolderRequest) : Type := Except Exc r.Result

abbrev FolderProgram := Program FolderRequest.Ans

/-- Where `paginate` goes on: the link has the query in it, so that no parameters are sent with
it. -/
def ListPage.next (page : ListPage) : Option (String × Params) :=
  (page.nextLink.filter (· ≠ "")).map (fun url => (url, []))

/-- `_find_child_folder`, `_find_folder_by_name` and `_find_contact_folder`, over the pages of
`GraphClient.paginate`: nothing comes out when the fuel is used up. -/
def findInPages (matching : Listed → Bool) (userKey : String) :
    ℕ → Option (String × Params) → FolderProgram (Option (Except Exc (Option Token)))
  | _, none => pure (some (.ok none))
  | 0, some _ => pure none
  | fuel + 1, some (url, params) => do
    match ← perform (FolderRequest.get url userKey params) with
    | .error e => pure (some (.error e))
    | .ok page =>
      match page.value.find? matching with
      | some x => pure (some (.ok (some x.id)))
      | none => findInPages matching userKey fuel page.next

/-- The `try` of the writers: after a 409 the folder is looked for once more. -/
def createChild (matching : Listed → Bool) (path userKey : String) (params : Params)
    (body : FolderBody) (fuel : ℕ) : FolderProgram (Option (Except Exc Token)) := do
  match ← perform (FolderRequest.post path userKey body) with
  | .ok id => pure (some (.ok id))
  | .error (.http 409 text) =>
    match ← findInPages matching userKey fuel (some (graphBase ++ path, params)) with
    | none => pure none
    | some (.error e) => pure (some (.error e))
    | some (.ok (some resolved)) => pure (some (.ok resolved))
    | some (.ok none) => pure (some (.error (.http 409 text)))
  | .error e => pure (some (.error e))

/-- The three writers, which differ in path, query, body and match. -/
def ensureChild (matching : Listed → Bool) (path userKey : String) (params : Params)
    (body : FolderBody) (fuel : ℕ) : FolderProgram (Option (Except Exc Token)) := do
  match ← findInPages matching userKey fuel (some (graphBase ++ path, params)) with
  | none => pure none
  | some (.error e) => pure (some (.error e))
  | some (.ok (some existing)) => pure (some (.ok existing))
  | some (.ok none) => createChild matching path userKey params body fuel

/-- The path of the children of a drive item, or of the root. -/
def childrenPath (driveRoot : String) : Option Token → String
  | some parentId => s!"/{driveRoot}/items/{parentId}/children"
  | none => s!"/{driveRoot}/root/children"

/-- `ensure_folder`. -/
def ensureFolder (casefold : String → String) (driveRoot userKey : String)
    (parentId : Option Token) (folderName : String) :
    ℕ → FolderProgram (Option (Except Exc Token)) :=
  ensureChild (childFolderNamed casefold folderName) (childrenPath driveRoot parentId) userKey
    [("$top", "200"), ("$select", "id,name,folder")] (.driveItem folderName "fail")

/-- The query of the two writers for a mailbox. -/
def mailboxParams : Params := [("$top", "100"), ("$select", "id,displayName")]

/-- The path of the folders in a mail folder, or of those of the mailbox. -/
def mailFoldersPath (msUserId : String) : Option Token → String
  | some parentFolderId => s!"/users/{msUserId}/mailFolders/{parentFolderId}/childFolders"
  | none => s!"/users/{msUserId}/mailFolders"

/-- `ensure_mail_folder`. -/
def ensureMailFolder (msUserId displayName : String) (parentFolderId : Option Token) :
    ℕ → FolderProgram (Option (Except Exc Token)) :=
  ensureChild (contactFolderNamed displayName) (mailFoldersPath msUserId parentFolderId) msUserId
    mailboxParams (.displayName displayName)

def contactFoldersPath (msUserId : String) : String := s!"/users/{msUserId}/contactFolders"

/-- `ensure_contact_folder`. -/
def ensureContactFolder (msUserId displayName : String) :
    ℕ → FolderProgram (Option (Except Exc Token)) :=
  ensureChild (contactFolderNamed displayName) (contactFoldersPath msUserId) msUserId
    mailboxParams (.displayName displayName)

/-- What a server has under a parent: how it compares names, and whether a child can be something
else than a folder. -/
structure Kind where
  fold : String → String
  files : Bool

/-- A drive takes names that differ in case only for equal. -/
def driveKind (casefold : String → String) : Kind := ⟨casefold, true⟩

def mailboxKind : Kind := ⟨id, false⟩

/-- The children of a parent, which have different names. -/
structure Children (kind : Kind) where
  items : List Listed
  unique : (items.map (fun x => kind.fold x.name)).Nodup
  folders : kind.files = false → ∀ x ∈ items, x.isFolder = true

variable {kind : Kind}

namespace Children

variable (c : Children kind)

def Taken (name : String) : Prop := ∃ x ∈ c.items, kind.fold x.name = kind.fold name

/-- A folder created under a name that was free. -/
def add (x : Listed) (free : ¬ c.Taken x.name) (folder : x.isFolder = true) : Children kind where
  items := c.items ++ [x]
  unique := by
    rw [List.map_append, List.nodup_append]
    refine ⟨c.unique, List.nodup_singleton _, ?_⟩
    intro a ha b hb hab
    obtain ⟨y, hy, rfl⟩ := List.mem_map.mp ha
    rw [List.map_singleton, List.mem_singleton] at hb
    exact free ⟨y, hy, hab.trans hb⟩
  folders := by
    intro hkind y hy
    rcases List.mem_append.mp hy with h | h
    · exact c.folders hkind y h
    · rw [List.mem_singleton.mp h]
      exact folder

/-- What another client did before the POST: nothing, or it created the same folder. -/
inductive Rival (name : String) : Children kind → Children kind → Prop
  | idle (c : Children kind) : Rival name c c
  | created (c : Children kind) (x : Listed) (same : kind.fold x.name = kind.fold name)
      (free : ¬ c.Taken x.name) (folder : x.isFolder = true) : Rival name c (c.add x free folder)

/-- The answer to the POST: 409 if and only if the name is taken. A request that fails otherwise
may have done its work all the same. -/
inductive Posted (name : String) : Children kind → Except Exc Token → Children kind → Prop
  | created (c : Children kind) (id : Token) (free : ¬ c.Taken name) :
      Posted name c (.ok id) (c.add { id := id, name := name } free rfl)
  | conflict (c : Children kind) (text : String) (taken : c.Taken name) :
      Posted name c (.error (.http 409 text)) c
  | failed (c : Children kind) (e : Exc) (other : ∀ text, e ≠ .http 409 text) :
      Posted name c (.error e) c
  | lost (c : Children kind) (id : Token) (e : Exc) (free : ¬ c.Taken name)
      (other : ∀ text, e ≠ .http 409 text) :
      Posted name c (.error e) (c.add { id := id, name := name } free rfl)

/-- A listing, in any order and cut into pages in any way. If it fails, it may have given some of
the children before. -/
def Lists (pages : List ListPage) : Option Exc → Prop
  | none => (pages.flatMap (·.value)).Perm c.items
  | some e => (∀ text, e ≠ .http 409 text) ∧ ∀ x ∈ pages.flatMap (·.value), x ∈ c.items

end Children

/-- A server with states `σ` and parents `ν`. -/
structure Host (kind : Kind) (σ ν : Type) where
  serve : (r : FolderRequest) → σ → r.Ans × σ
  parent : String → ν
  children : σ → ν → Children kind
  get_children : ∀ url key params s, children (serve (.get url key params) s).2 = children s
  lists : ∀ path key params s, ∃ pages e t,
    Chain (fun link s => serve (.get link.1 key link.2) s) ListPage.next s
      (some (graphBase ++ path, params)) pages e t ∧ (children s (parent path)).Lists pages e
  posts : ∀ path key body s, ∃ c,
    Children.Rival body.name (children s (parent path)) c ∧
      Children.Posted body.name c (serve (.post path key body) s).1
        (children (serve (.post path key body) s).2 (parent path)) ∧
      ∀ p, p ≠ parent path → children (serve (.post path key body) s).2 p = children s p

variable {σ ν : Type} (host : Host kind σ ν)

/-- The failure that a request was answered with. -/
def failure (event : Dialogue.Event FolderRequest.Ans) : Option Exc :=
  match event.answer with
  | .error e => some e
  | .ok _ => none

/-- The failures that a program hears of. -/
def heard {α : Type} (program : FolderProgram α) (s : σ) : List Exc :=
  (program.trace host.serve s).filterMap failure

/-- The call comes to its end with the result `r` in the state `s'`, if it is given enough fuel, and
what it raises is the answer to one of its requests. -/
def Ends {α : Type} (call : ℕ → FolderProgram (Option (Except Exc α))) (s : σ) (r : Except Exc α)
    (s' : σ) : Prop :=
  ∃ enough, ∀ fuel, enough ≤ fuel → (call fuel).run host.serve s = (some r, s') ∧
    ∀ e, r = .error e → e ∈ heard host (call fuel) s

/-- The one child of the name, and a folder. -/
structure TheFolder (c : Children kind) (name : String) (x : Listed) : Prop where
  mem : x ∈ c.items
  folder : x.isFolder = true
  same : kind.fold x.name = kind.fold name
  only : ∀ y ∈ c.items, kind.fold y.name = kind.fold name → y = x

/-- No child is lost, and none comes but of the name. -/
structure Kept (name : String) (before after : Children kind) : Prop where
  stays : ∀ y ∈ before.items, y ∈ after.items
  only : ∀ y ∈ after.items, y ∈ before.items ∨ kind.fold y.name = kind.fold name

/-- A 409 is told about only where a child that is no folder has the name. -/
def Raises (c : Children kind) (name : String) (e : Exc) : Prop :=
  (∀ text, e ≠ .http 409 text) ∨
    ∃ x ∈ c.items, x.isFolder = false ∧ kind.fold x.name = kind.fold name

/-- How the call goes, from any state: it finds or creates the one folder, or raises for a reason,
and as long as the folder is there every later call finds it. -/
structure Ensures (p : ν) (name : String)
    (call : ℕ → FolderProgram (Option (Except Exc Token))) : Prop where
  ends : ∀ s, ∃ r s', Ends host call s r s' ∧
    Kept name (host.children s p) (host.children s' p) ∧
    (∀ q, q ≠ p → host.children s' q = host.children s q) ∧
    ((∃ x, TheFolder (host.children s' p) name x ∧ r = .ok x.id) ∨
      ∃ e, Raises (host.children s' p) name e ∧ r = .error e)
  again : ∀ s x, TheFolder (host.children s p) name x → ∃ r s', Ends host call s r s' ∧
    host.children s' = host.children s ∧
    (r = .ok x.id ∨ ∃ e, (∀ text, e ≠ .http 409 text) ∧ r = .error e)

/-- What a writer takes for a match is a folder of the name. -/
def Matches (kind : Kind) (name : String) (matching : Listed → Bool) : Prop :=
  ∀ x, (kind.files = false → x.isFolder = true) →
    (matching x = true ↔ x.isFolder = true ∧ kind.fold x.name = kind.fold name)

section

theorem Kept.refl (name : String) (c : Children kind) : Kept name c c :=
  ⟨fun _ h => h, fun _ h => Or.inl h⟩

theorem Kept.trans {name : String} {a b c : Children kind} (h : Kept name a b)
    (h' : Kept name b c) : Kept name a c := by
  refine ⟨fun y hy => h'.stays y (h.stays y hy), fun y hy => ?_⟩
  rcases h'.only y hy with hb | hsame
  · exact h.only y hb
  · exact Or.inr hsame

theorem Kept.add {name : String} (c : Children kind) (x : Listed) (free : ¬ c.Taken x.name)
    (folder : x.isFolder = true) (same : kind.fold x.name = kind.fold name) :
    Kept name c (c.add x free folder) := by
  refine ⟨fun y hy => List.mem_append_left _ hy, fun y hy => ?_⟩
  rcases List.mem_append.mp hy with hold | hnew
  · exact Or.inl hold
  · rw [List.mem_singleton.mp hnew]
    exact Or.inr same

theorem theFolder_of_mem {c : Children kind} {name : String} {x : Listed} (hmem : x ∈ c.items)
    (hfolder : x.isFolder = true) (hsame : kind.fold x.name = kind.fold name) :
    TheFolder c name x := by
  refine ⟨hmem, hfolder, hsame, fun y hy hname => ?_⟩
  exact List.inj_on_of_nodup_map c.unique hy hmem (hname.trans hsame.symm)

theorem heard_bind {α β : Type} (p : FolderProgram α) (f : α → FolderProgram β) (s : σ) :
    heard host (p >>= f) s =
      heard host p s ++ heard host (f (p.run host.serve s).1) (p.run host.serve s).2 := by
  rw [heard, trace_bind, List.filterMap_append]
  rfl

variable {host} {name : String} {matching : Listed → Bool}

/-- A request with its answer, in front of the rest of a program. -/
theorem heard_request {α : Type} {request : FolderRequest} {answer : request.Ans} {s s' : σ}
    (next : request.Ans → FolderProgram α) (hserve : host.serve request s = (answer, s')) :
    heard host (Program.request request next) s =
      (failure ⟨request, answer⟩).toList ++ heard host (next answer) s' := by
  rw [heard, trace_request, hserve, List.filterMap_cons]
  cases failure ⟨request, answer⟩ <;> rfl

/-- What the search in a listing tells about the children. -/
theorem findListed_cases (hmatches : Matches kind name matching) {c : Children kind}
    {pages : List ListPage} {e : Option Exc} (hlists : c.Lists pages e) :
    (∃ x, TheFolder c name x ∧
        findListed matching ⟨pages.flatMap (·.value), e, none⟩ = .ok (some x.id)) ∨
      (∃ err, (∀ text, err ≠ .http 409 text) ∧
        findListed matching ⟨pages.flatMap (·.value), e, none⟩ = .error err) ∨
      findListed matching ⟨pages.flatMap (·.value), e, none⟩ = .ok none ∧
        ∀ x ∈ c.items, kind.fold x.name = kind.fold name → x.isFolder = false := by
  have hmem : ∀ x ∈ pages.flatMap (·.value), x ∈ c.items := by
    cases e with
    | none => exact fun x hx => List.Perm.mem_iff hlists |>.mp hx
    | some err => exact hlists.2
  rcases hfound : findListed matching ⟨pages.flatMap (·.value), e, none⟩ with err | (_ | id)
  · right
    left
    refine ⟨err, ?_, hfound⟩
    unfold findListed at hfound
    split at hfound
    · cases hfound
    · cases e with
      | none => cases hfound
      | some e =>
        obtain rfl := Except.error.inj hfound
        exact hlists.1
  · right
    right
    obtain ⟨hraised, hothers⟩ := findListed_eq_none hfound
    refine ⟨hfound, fun x hx hsame => ?_⟩
    -- the listing is complete, so that the child was looked at
    obtain rfl : e = none := hraised
    have hnot := hothers x (List.Perm.mem_iff hlists |>.mpr hx)
    by_contra hfolder
    rw [Bool.not_eq_false] at hfolder
    have hmatch := (hmatches x (fun h => c.folders h x hx)).mpr ⟨hfolder, hsame⟩
    rw [hnot] at hmatch
    cases hmatch
  · left
    obtain ⟨x, hx, hmatch, rfl⟩ := findListed_eq_some hfound
    have hfolder := (hmatches x (fun h => c.folders h x (hmem x hx))).mp hmatch
    exact ⟨x, theFolder_of_mem (hmem x hx) hfolder.1 hfolder.2, hfound⟩

/-- A page without a match is passed over. -/
theorem findListed_page {p : ListPage} (hfind : p.value.find? matching = none)
    (ps : List ListPage) (e : Option Exc) :
    findListed matching ⟨(p :: ps).flatMap (·.value), e, none⟩ =
      findListed matching ⟨ps.flatMap (·.value), e, none⟩ := by
  have hall : ((p :: ps).flatMap (·.value)).find? matching =
      (ps.flatMap (·.value)).find? matching := by
    rw [List.flatMap_cons, List.find?_append, hfind, Option.none_or]
  simp only [findListed, hall]

/-- The search reads a listing page by page and stops at the first match. -/
theorem findInPages_run (matching : Listed → Bool) (key : String) {s t : σ}
    {link : Option (String × Params)} {pages : List ListPage} {e : Option Exc}
    (h : Chain (fun link s => host.serve (.get link.1 key link.2) s) ListPage.next s link pages e t) :
    ∃ s', host.children s' = host.children s ∧ ∀ fuel, pages.length < fuel →
      (findInPages matching key fuel link).run host.serve s =
          (some (findListed matching ⟨pages.flatMap (·.value), e, none⟩), s') ∧
        ∀ err, findListed matching ⟨pages.flatMap (·.value), e, none⟩ = .error err →
          err ∈ heard host (findInPages matching key fuel link) s := by
  induction h with
  | last s =>
    refine ⟨s, rfl, fun fuel hfuel => ⟨?_, fun err herr => ?_⟩⟩
    · cases fuel <;> rfl
    · cases herr
  | @failed s s' link err answer =>
    have hget := host.get_children link.1 key link.2 s
    refine ⟨s', by rw [← hget, answer], fun fuel hfuel => ?_⟩
    obtain ⟨n, rfl⟩ : ∃ n, fuel = n + 1 := ⟨fuel - 1, by omega⟩
    rw [findInPages, perform_bind, run_request, heard_request _ answer, answer]
    refine ⟨rfl, fun err' herr' => ?_⟩
    obtain rfl : err = err' := Except.error.inj herr'
    exact List.mem_cons_self
  | @page s s' t link p ps e answer rest ih =>
    have hget := host.get_children link.1 key link.2 s
    have hkept : host.children s' = host.children s := by rw [← hget, answer]
    cases hfind : p.value.find? matching with
    | some x =>
      refine ⟨s', hkept, fun fuel hfuel => ?_⟩
      obtain ⟨n, rfl⟩ : ∃ n, fuel = n + 1 := ⟨fuel - 1, by omega⟩
      have hall : ((p :: ps).flatMap (·.value)).find? matching = some x := by
        rw [List.flatMap_cons, List.find?_append, hfind, Option.some_or]
      rw [findInPages, perform_bind, run_request, answer]
      simp only [hfind, findListed, hall]
      exact ⟨rfl, fun err herr => nomatch herr⟩
    | none =>
      obtain ⟨s'', hchildren, hrun⟩ := ih
      refine ⟨s'', hchildren.trans hkept, fun fuel hfuel => ?_⟩
      obtain ⟨n, rfl⟩ : ∃ n, fuel = n + 1 := ⟨fuel - 1, by omega⟩
      rw [List.length_cons] at hfuel
      rw [findInPages, perform_bind, run_request, heard_request _ answer, answer,
        findListed_page hfind]
      simp only [hfind]
      exact hrun n (by omega)

variable (host) in
/-- One search of a call: the folder, an error of the server, or no folder of the name. -/
theorem search_cases (hmatches : Matches kind name matching) (path key : String) (params : Params)
    (s : σ) : ∃ s' found, host.children s' = host.children s ∧
      Ends host (fun fuel => findInPages matching key fuel (some (graphBase ++ path, params))) s
        found s' ∧
      ((∃ x, TheFolder (host.children s (host.parent path)) name x ∧ found = .ok (some x.id)) ∨
        (∃ err, (∀ text, err ≠ .http 409 text) ∧ found = .error err) ∨
        found = .ok none ∧ ∀ x ∈ (host.children s (host.parent path)).items,
          kind.fold x.name = kind.fold name → x.isFolder = false) := by
  obtain ⟨pages, e, t, hchain, hlists⟩ := host.lists path key params s
  obtain ⟨s', hchildren, hrun⟩ := findInPages_run matching key hchain
  refine ⟨s', _, hchildren, ⟨pages.length + 1, hrun⟩, ?_⟩
  exact findListed_cases hmatches hlists

variable {path key : String} {params : Params} {body : FolderBody}

/-- A search that finds the folder is all of the call. -/
theorem ends_of_found {s s' : σ} {id : Token}
    (h : Ends host (fun fuel => findInPages matching key fuel (some (graphBase ++ path, params))) s
      (.ok (some id)) s') :
    Ends host (ensureChild matching path key params body) s (.ok id) s' := by
  obtain ⟨enough, hrun⟩ := h
  refine ⟨enough, fun fuel hfuel => ⟨?_, fun e he => nomatch he⟩⟩
  rw [ensureChild, run_bind, (hrun fuel hfuel).1]
  rfl

/-- So is one that fails, with the answer it has heard. -/
theorem ends_of_failed {s s' : σ} {err : Exc}
    (h : Ends host (fun fuel => findInPages matching key fuel (some (graphBase ++ path, params))) s
      (.error err) s') :
    Ends host (ensureChild matching path key params body) s (.error err) s' := by
  obtain ⟨enough, hrun⟩ := h
  refine ⟨enough, fun fuel hfuel => ⟨?_, fun e he => ?_⟩⟩
  · rw [ensureChild, run_bind, (hrun fuel hfuel).1]
    rfl
  · obtain rfl := Except.error.inj he
    rw [ensureChild, heard_bind]
    exact List.mem_append_left _ ((hrun fuel hfuel).2 err rfl)

/-- A folder that is there is found, unless a listing fails, and nothing is created. -/
theorem ensureChild_found (hmatches : Matches kind name matching) {s : σ} {x : Listed}
    (hx : TheFolder (host.children s (host.parent path)) name x) :
    ∃ r s', Ends host (ensureChild matching path key params body) s r s' ∧
      host.children s' = host.children s ∧
      (r = .ok x.id ∨ ∃ e, (∀ text, e ≠ .http 409 text) ∧ r = .error e) := by
  obtain ⟨s', found, hchildren, hrun, hfound⟩ := search_cases host hmatches path key params s
  rcases hfound with ⟨y, hy, rfl⟩ | ⟨err, herr, rfl⟩ | ⟨rfl, hnone⟩
  · obtain rfl : x = y := hy.only x hx.mem hx.same
    exact ⟨.ok x.id, s', ends_of_found hrun, hchildren, Or.inl rfl⟩
  · exact ⟨.error err, s', ends_of_failed hrun, hchildren, Or.inr ⟨err, herr, rfl⟩⟩
  · have hfile := hnone x hx.mem hx.same
    rw [hx.folder] at hfile
    cases hfile

/-- The folder that another client or the POST made. -/
theorem theFolder_add {c : Children kind} {x : Listed} (free : ¬ c.Taken x.name)
    (folder : x.isFolder = true) (same : kind.fold x.name = kind.fold name) :
    TheFolder (c.add x free folder) name x :=
  theFolder_of_mem (List.mem_append_right _ (List.mem_singleton.mpr rfl)) folder same

theorem Kept.rival {c c' : Children kind} (h : Children.Rival name c c') : Kept name c c' := by
  cases h with
  | idle => exact Kept.refl name c
  | created x same free folder => exact Kept.add c x free folder same

theorem Kept.posted {c c' : Children kind} {answer : Except Exc Token}
    (h : Children.Posted name c answer c') : Kept name c c' := by
  cases h with
  | created id free => exact Kept.add c _ free rfl rfl
  | conflict text taken => exact Kept.refl name c
  | failed e other => exact Kept.refl name c
  | lost id e free other => exact Kept.add c _ free rfl rfl

/-- Any exception of the POST but a 409 is raised. -/
theorem createChild_raises {s s' : σ} {e : Exc} (other : ∀ text, e ≠ .http 409 text)
    (hserve : host.serve (.post path key body) s = (.error e, s')) :
    Ends host (createChild matching path key params body) s (.error e) s' := by
  refine ⟨0, fun fuel _ => ⟨?_, fun e' he => ?_⟩⟩
  · rw [createChild, perform_bind, run_request, hserve]
    simp only
    rfl
  · obtain rfl := Except.error.inj he
    rw [createChild, perform_bind, heard_request _ hserve]
    exact List.mem_cons_self

variable (params) in
/-- After a 409 the folder is found, or something else has the name. -/
theorem createChild_resolves (hmatches : Matches kind name matching) {s s₂ : σ} {text : String}
    (hserve : host.serve (.post path key body) s = (.error (.http 409 text), s₂))
    (htaken : (host.children s₂ (host.parent path)).Taken name) :
    ∃ r s', Ends host (createChild matching path key params body) s r s' ∧
      host.children s' = host.children s₂ ∧
      ((∃ x, TheFolder (host.children s₂ (host.parent path)) name x ∧ r = .ok x.id) ∨
        ∃ e, Raises (host.children s₂ (host.parent path)) name e ∧ r = .error e) := by
  obtain ⟨s', found, hchildren, ⟨enough, hrun⟩, hfound⟩ :=
    search_cases host hmatches path key params s₂
  have hpost : ∀ fuel, enough ≤ fuel →
      (createChild matching path key params body fuel).run host.serve s =
        (match (some found : Option (Except Exc (Option Token))) with
          | none => (none, s')
          | some (.error e) => (some (.error e), s')
          | some (.ok (some resolved)) => (some (.ok resolved), s')
          | some (.ok none) => (some (.error (.http 409 text)), s')) := by
    intro fuel hfuel
    rw [createChild, perform_bind, run_request, hserve]
    simp only [run_bind, (hrun fuel hfuel).1]
    rcases found with err | (_ | id) <;> rfl
  -- the refusal, and what the second search hears
  have hheard : ∀ fuel, ∃ rest, heard host (createChild matching path key params body fuel) s =
      .http 409 text :: (heard host (findInPages matching key fuel
        (some (graphBase ++ path, params))) s₂ ++ rest) := by
    intro fuel
    rw [createChild, perform_bind, heard_request _ hserve]
    simp only [heard_bind]
    exact ⟨_, rfl⟩
  rcases hfound with ⟨x, hx, rfl⟩ | ⟨err, herr, rfl⟩ | ⟨rfl, hnone⟩
  · exact ⟨.ok x.id, s', ⟨enough, fun fuel hfuel => ⟨hpost fuel hfuel, fun e he => nomatch he⟩⟩,
      hchildren, Or.inl ⟨x, hx, rfl⟩⟩
  · refine ⟨.error err, s', ⟨enough, fun fuel hfuel => ⟨hpost fuel hfuel, fun e he => ?_⟩⟩,
      hchildren, Or.inr ⟨err, Or.inl herr, rfl⟩⟩
    obtain rfl := Except.error.inj he
    obtain ⟨rest, hall⟩ := hheard fuel
    rw [hall]
    exact List.mem_cons_of_mem _ (List.mem_append_left _ ((hrun fuel hfuel).2 err rfl))
  · obtain ⟨x, hx, hsame⟩ := htaken
    have hraises : Raises (host.children s₂ (host.parent path)) name (.http 409 text) :=
      Or.inr ⟨x, hx, hnone x hx hsame, hsame⟩
    refine ⟨_, s', ⟨enough, fun fuel hfuel => ⟨hpost fuel hfuel, fun e he => ?_⟩⟩, hchildren,
      Or.inr ⟨_, hraises, rfl⟩⟩
    obtain rfl := Except.error.inj he
    obtain ⟨rest, hall⟩ := hheard fuel
    rw [hall]
    exact List.mem_cons_self

variable (key params) in
/-- What the POST comes to, after the name was not found and another client had its turn. -/
theorem createChild_ends (hmatches : Matches kind name matching) (hname : body.name = name)
    (s : σ) :
    ∃ r s', Ends host (createChild matching path key params body) s r s' ∧
      Kept name (host.children s (host.parent path)) (host.children s' (host.parent path)) ∧
      (∀ q, q ≠ host.parent path → host.children s' q = host.children s q) ∧
      ((∃ x, TheFolder (host.children s' (host.parent path)) name x ∧ r = .ok x.id) ∨
        ∃ e, Raises (host.children s' (host.parent path)) name e ∧ r = .error e) := by
  obtain ⟨c, hrival, hposted, hothers⟩ := host.posts path key body s
  rw [hname] at hrival hposted
  have hkept := (Kept.rival hrival).trans (Kept.posted hposted)
  rcases hserve : host.serve (.post path key body) s with ⟨answer, s₂⟩
  rw [hserve] at hposted hothers hkept
  simp only at hposted hothers hkept
  generalize hc₂ : host.children s₂ (host.parent path) = c₂ at hposted hkept
  cases hposted with
  | created id free =>
    refine ⟨.ok id, s₂, ⟨0, fun fuel _ => ⟨?_, fun e he => nomatch he⟩⟩, hc₂ ▸ hkept, hothers,
      Or.inl ⟨{ id := id, name := name }, ?_, rfl⟩⟩
    · rw [createChild, perform_bind, run_request, hserve]
      rfl
    · rw [hc₂]
      exact theFolder_add free rfl rfl
  | conflict text taken =>
    rw [← hc₂] at taken
    obtain ⟨r, s', hends, hchildren, hresult⟩ :=
      createChild_resolves params hmatches hserve taken
    refine ⟨r, s', hends, ?_, ?_, ?_⟩
    · rw [hchildren, hc₂]
      exact hkept
    · intro q hq
      rw [hchildren, hothers q hq]
    · rw [hchildren]
      exact hresult
  | failed e other =>
    exact ⟨.error e, s₂, createChild_raises other hserve, hc₂ ▸ hkept, hothers,
      Or.inr ⟨e, Or.inl other, rfl⟩⟩
  | lost id e free other =>
    exact ⟨.error e, s₂, createChild_raises other hserve, hc₂ ▸ hkept, hothers,
      Or.inr ⟨e, Or.inl other, rfl⟩⟩

/-- The writers find or create exactly one folder. -/
theorem ensureChild_ensures (host : Host kind σ ν) (hmatches : Matches kind name matching)
    (hname : body.name = name) :
    Ensures host (host.parent path) name (ensureChild matching path key params body) := by
  refine ⟨fun s => ?_, fun s x hx => ensureChild_found hmatches hx⟩
  obtain ⟨s₁, found, hchildren, hrun, hfound⟩ := search_cases host hmatches path key params s
  rcases hfound with ⟨x, hx, rfl⟩ | ⟨err, herr, rfl⟩ | ⟨rfl, hnone⟩
  · refine ⟨.ok x.id, s₁, ends_of_found hrun, ?_, fun q _ => by rw [hchildren],
      Or.inl ⟨x, hchildren ▸ hx, rfl⟩⟩
    rw [hchildren]
    exact Kept.refl _ _
  · refine ⟨.error err, s₁, ends_of_failed hrun, ?_, fun q _ => by rw [hchildren],
      Or.inr ⟨err, Or.inl herr, rfl⟩⟩
    rw [hchildren]
    exact Kept.refl _ _
  · obtain ⟨enough, hrun⟩ := hrun
    obtain ⟨r, s', ⟨enough', hcreate⟩, hkept, hothers, hresult⟩ :=
      createChild_ends key params hmatches hname s₁
    rw [hchildren] at hkept hothers
    refine ⟨r, s', ⟨max enough enough', fun fuel hfuel => ⟨?_, fun e he => ?_⟩⟩, hkept, hothers,
      hresult⟩
    · rw [ensureChild, run_bind, (hrun fuel (by omega)).1]
      exact (hcreate fuel (by omega)).1
    · rw [ensureChild, heard_bind, (hrun fuel (by omega)).1]
      exact List.mem_append_right _ ((hcreate fuel (by omega)).2 e he)

theorem childFolder_matches (casefold : String → String) (name : String) :
    Matches (driveKind casefold) name (childFolderNamed casefold name) := by
  intro x _
  simp [childFolderNamed, driveKind]

/-- Children of a mailbox are folders, so that the name is enough. -/
theorem mailboxFolder_matches (name : String) :
    Matches mailboxKind name (contactFolderNamed name) := by
  intro x hfolder
  simp [contactFolderNamed, mailboxKind, hfolder rfl]

end

/-- The three writers of folders, whatever the children are, however a listing is cut into pages
and whether or not another client creates the same folder in between. -/
theorem folderWriters_ensure (casefold : String → String) {σ' ν' : Type}
    (drive : Host (driveKind casefold) σ ν) (mailbox : Host mailboxKind σ' ν') (name : String) :
    (∀ driveRoot key parentId,
      Ensures drive (drive.parent (childrenPath driveRoot parentId)) name
        (ensureFolder casefold driveRoot key parentId name)) ∧
    (∀ user parentId,
      Ensures mailbox (mailbox.parent (mailFoldersPath user parentId)) name
        (ensureMailFolder user name parentId)) ∧
    ∀ user, Ensures mailbox (mailbox.parent (contactFoldersPath user)) name
      (ensureContactFolder user name) := by
  refine ⟨fun driveRoot key parentId => ?_, fun user parentId => ?_, fun user => ?_⟩
  · exact ensureChild_ensures drive (childFolder_matches casefold name) rfl
  · exact ensureChild_ensures mailbox (mailboxFolder_matches name) rfl
  · exact ensureChild_ensures mailbox (mailboxFolder_matches name) rfl

instance (c : Children kind) (name : String) : Decidable (c.Taken name) :=
  inferInstanceAs (Decidable (∃ x ∈ c.items, kind.fold x.name = kind.fold name))

/-- A server without other clients that lists one child on the first page and the rest behind
it. -/
def twoPageServer (kind : Kind) : (r : FolderRequest) → Children kind → r.Ans × Children kind
  | .get url _ _, c =>
    if url = "more" then (.ok ⟨c.items.drop 1, none⟩, c)
    else (.ok ⟨c.items.take 1, some "more"⟩, c)
  | .post _ _ body, c =>
    if h : c.Taken body.name then (.error (.http 409 "nameAlreadyExists"), c)
    else (.ok ⟨"new", by decide⟩, c.add { id := ⟨"new", by decide⟩, name := body.name } h rfl)

def twoPageHost (kind : Kind) : Host kind (Children kind) Unit where
  serve := twoPageServer kind
  parent _ := ()
  children c _ := c
  get_children url key params c := by
    funext _
    simp only [twoPageServer]
    split <;> rfl
  lists path key params c := by
    have hurl : graphBase ++ path ≠ "more" := by
      intro h
      have hhead := congrArg (fun text => text.toList.head?) h
      simp [graphBase] at hhead
    have hfirst : twoPageServer kind (.get (graphBase ++ path) key params) c =
        (.ok ⟨c.items.take 1, some "more"⟩, c) := by
      rw [twoPageServer, if_neg hurl]
    have hmore : twoPageServer kind (.get "more" key []) c = (.ok ⟨c.items.drop 1, none⟩, c) := by
      rw [twoPageServer, if_pos rfl]
    refine ⟨[⟨c.items.take 1, some "more"⟩, ⟨c.items.drop 1, none⟩], none, c,
      Chain.page hfirst (Chain.page hmore (Chain.last c)), ?_⟩
    have hall : c.items.take 1 ++ (c.items.drop 1 ++ []) = c.items := by
      rw [List.append_nil, List.take_append_drop]
    exact List.Perm.of_eq hall
  posts path key body c := by
    refine ⟨c, Children.Rival.idle c, ?_, fun p hp => absurd rfl hp⟩
    simp only [twoPageServer]
    by_cases h : c.Taken body.name
    · rw [dif_pos h]
      exact Children.Posted.conflict c _ h
    · rw [dif_neg h]
      exact Children.Posted.created c _ h

/-- It answers no failure but a 409. -/
theorem twoPageServer_fails (kind : Kind) (r : FolderRequest) (c : Children kind) {e : Exc}
    (h : failure ⟨r, (twoPageServer kind r c).1⟩ = some e) : ∃ text, e = .http 409 text := by
  cases r with
  | get url key params => by_cases hurl : url = "more" <;> simp [twoPageServer, failure, hurl] at h
  | post path key body =>
    by_cases htaken : c.Taken body.name
    · exact ⟨_, by simpa [twoPageServer, failure, htaken] using h.symm⟩
    · simp [twoPageServer, failure, htaken] at h

theorem twoPageHost_heard {α : Type} (kind : Kind) (program : FolderProgram α) (c : Children kind) :
    ∀ e ∈ heard (twoPageHost kind) program c, ∃ text, e = .http 409 text := by
  induction program generalizing c with
  | done a => exact fun e he => absurd he List.not_mem_nil
  | request r next ih =>
    intro e he
    have hserve : (twoPageHost kind).serve r c =
        ((twoPageServer kind r c).1, (twoPageServer kind r c).2) := rfl
    rw [heard_request next hserve] at he
    rcases List.mem_append.mp he with hnow | hlater
    · exact twoPageServer_fails kind r c (Option.mem_toList.mp hnow)
    · exact ih _ _ e hlater

/-- A drive with the folder "REPORTS" behind another one. -/
def reportsDrive : Children (driveKind lowerText) where
  items := [⟨⟨"p", by decide⟩, "Plans", true⟩, ⟨⟨"r", by decide⟩, "REPORTS", true⟩]
  unique := by decide
  folders := by decide

/-- On such a server a folder "Reports" is found or made in the root, and there it is found. -/
theorem folderWriters_ensure_twoPages :
    Ensures (twoPageHost (driveKind lowerText)) () "Reports"
      (ensureFolder lowerText "drives/d" "d" none "Reports") ∧
    ∃ c, Ends (twoPageHost (driveKind lowerText))
      (ensureFolder lowerText "drives/d" "d" none "Reports") reportsDrive
      (.ok ⟨"r", by decide⟩) c := by
  have hall := folderWriters_ensure lowerText (twoPageHost (driveKind lowerText))
    (twoPageHost mailboxKind) "Reports"
  have hreports : TheFolder reportsDrive "Reports" ⟨⟨"r", by decide⟩, "REPORTS", true⟩ :=
    theFolder_of_mem (by decide) rfl (by decide)
  have hensures := hall.1 "drives/d" "d" none
  obtain ⟨r, c, ⟨enough, hends⟩, -, rfl | ⟨e, hother, rfl⟩⟩ := hensures.again reportsDrive _ hreports
  · exact ⟨hensures, c, enough, hends⟩
  · obtain ⟨text, rfl⟩ := twoPageHost_heard _ _ _ e ((hends enough (le_refl _)).2 e rfl)
    exact absurd rfl (hother text)

end GwsMigrator.FolderWriters
