import GwsMigrator.ContactsSync
import GwsMigrator.DeltaFeed
import GwsMigrator.PageChains
import GwsMigrator.Programs
import GwsMigrator.Separators

/-! `google/people.py` and the contacts of `connectors/google.py`: an address book read whole or by
a sync token, and what an expired token does to the contacts that were changed or deleted. -/
namespace GwsMigrator.GoogleContacts
open Program PageChains ChangeFeed Separators
open DeltaFeed (truthy)

inductive Membership where
  | contactGroup (resourceName : Option String)
  | domain

structure Photo where
  url : String := ""
  isDefault : Bool := false

/-- A person, with the keys that `_to_contact` looks at. `body` is what `_map_contact` makes of the
names, addresses and numbers. -/
structure Person where
  resourceName : String := ""
  etag : String := ""
  memberships : List Membership := []
  photos : List Photo := []
  body : GraphBody := ""
  deleted : Bool := false

structure ContactGroup where
  resourceName : String := ""
  name : String := ""

structure ConnectionsPage where
  connections : List Person
  nextPageToken : Option String := none
  nextSyncToken : Option String := none

/-- The requests to the People API. Without a sync token one is asked for. -/
inductive PeopleRequest where
  | connections (syncToken pageToken : Option Token)
  | contactGroups

abbrev PeopleRequest.Ans : PeopleRequest → Type
  | .connections .. => Except Exc ConnectionsPage
  | .contactGroups => Except Exc (List ContactGroup)

abbrev PeopleProgram := Program PeopleRequest.Ans

/-- What is read: the people, and the sync token on the last page. -/
abbrev Connections := List Person × String

/-- The loop of `people.iter_contacts` from a page on. -/
def listConnections (syncToken : Option Token) :
    ℕ → Option Token → PeopleProgram (Option (Except Exc Connections))
  | 0, _ => pure none
  | fuel + 1, pageToken => do
    match ← perform (PeopleRequest.connections syncToken pageToken) with
    | .error e => pure (some (.error e))
    | .ok resp =>
      match resp.nextPageToken.bind truthy with
      | none => pure (some (.ok (resp.connections, resp.nextSyncToken.getD "")))
      | some next => do
        match ← listConnections syncToken fuel (some next) with
        | some (.ok (more, newSyncToken)) =>
          pure (some (.ok (resp.connections ++ more, newSyncToken)))
        | r => pure r

/-- `people.iter_contacts`: an expired token makes it a full sync. -/
def iterPeople (syncToken : Option Token) (fuel : ℕ) :
    PeopleProgram (Option (Except Exc Connections)) := do
  match ← listConnections syncToken fuel none with
  | some (.error (.http 410 text)) =>
    if syncToken.isSome then listConnections none fuel none
    else pure (some (.error (.http 410 text)))
  | r => pure r

/-- `_group_names`. -/
def groupNames (groups : List ContactGroup) : AList (fun _ : String => String) :=
  (groups.filter (fun group => group.resourceName ≠ "")).foldl
    (fun names group => names.insert group.resourceName group.name) ∅

/-- The group of the first membership that is one. -/
def firstGroup : List Membership → Option String
  | [] => none
  | .contactGroup resourceName :: _ => resourceName
  | .domain :: memberships => firstGroup memberships

/-- The folder of a contact: a system group is none. -/
def contactFolder (names : AList (fun _ : String => String)) (memberships : List Membership) :
    String :=
  match (firstGroup memberships).bind truthy with
  | none => "Imported Contacts"
  | some group =>
    let name := (names.lookup group.val).getD ""
    if name ≠ "" ∧ ¬ "contactGroups/".toList <+: name.toList then name else "Imported Contacts"

/-- `_to_contact`. -/
def toContact (names : AList (fun _ : String => String)) (person : Person) : SourceContact where
  sourceId := replaceText person.resourceName "people/" ""
  graphBody := person.body
  folderName := contactFolder names person.memberships
  photoRef := ((person.photos.find? (fun photo => !photo.isDefault)).map Photo.url).getD ""
  sourceHash := person.etag
  isDeleted := person.deleted

/-- `GoogleWorkspaceSource.iter_contacts`, run to its end. -/
def iterContacts (since : Option Token) (fuel : ℕ) :
    PeopleProgram (Option (Enumeration SourceContact)) := do
  match ← iterPeople since fuel with
  | none => pure none
  | some (.error e) => pure (some { items := [], raised := some e })
  | some (.ok (people, newToken)) => do
    match ← perform PeopleRequest.contactGroups with
    | .error e => pure (some { items := [], raised := some e, lastCursor := truthy newToken })
    | .ok groups =>
      pure (some
        { items := people.map (toContact (groupNames groups)), lastCursor := truthy newToken })

/-! What the pages of a listing come to. -/

section chains
variable {σ : Type} (serve : (r : PeopleRequest) → σ → r.Ans × σ)

/-- The pages of a listing with a sync token or without. The first page has no page token. -/
abbrev ConnectionsChain (syncToken : Option Token) :=
  Chain (fun pageToken => serve (.connections syncToken pageToken))
    (fun page : ConnectionsPage => (page.nextPageToken.bind truthy).map some)

/-- The people on the pages, and the token on the last one. -/
def connectionsOf (pages : List ConnectionsPage) : Connections :=
  (pages.flatMap ConnectionsPage.connections,
    (pages.getLast?.bind ConnectionsPage.nextSyncToken).getD "")

variable {serve}

/-- A listing that comes to its end has read a chain of pages. -/
theorem listConnections_chain {syncToken : Option Token} {fuel : ℕ} {pageToken : Option Token}
    {s t : σ} {r : Except Exc Connections}
    (h : (listConnections syncToken fuel pageToken).run serve s = (some r, t)) :
    ∃ pages e, ConnectionsChain serve syncToken s (some pageToken) pages e t ∧
      ((∃ text, e = some text ∧ r = .error text) ∨
        (e = none ∧ pages ≠ [] ∧ r = .ok (connectionsOf pages))) := by
  induction fuel generalizing pageToken s r with
  | zero => cases h
  | succ fuel ih =>
    rw [listConnections, perform_bind, run_request] at h
    rcases hanswer : serve (.connections syncToken pageToken) s with ⟨e | resp, s₁⟩
    · rw [hanswer] at h
      obtain ⟨hr, rfl⟩ := Prod.mk.inj h
      obtain rfl := Option.some.inj hr
      exact ⟨[], some e, .failed hanswer, Or.inl ⟨e, rfl, rfl⟩⟩
    · rw [hanswer] at h
      simp only at h
      cases hnext : resp.nextPageToken.bind truthy with
      | none =>
        rw [hnext] at h
        obtain ⟨hr, rfl⟩ := Prod.mk.inj h
        obtain rfl := Option.some.inj hr
        refine ⟨[resp], none, .page hanswer ?_, Or.inr ⟨rfl, by simp, ?_⟩⟩
        · simp only [hnext, Option.map_none]
          exact .last s₁
        · simp [connectionsOf]
      | some next =>
        rw [hnext] at h
        simp only [run_bind] at h
        rcases hrest : (listConnections syncToken fuel (some next)).run serve s₁ with
          ⟨_ | (e | ⟨more, token⟩), s₂⟩
        · rw [hrest] at h
          cases h
        · rw [hrest] at h
          obtain ⟨hr, rfl⟩ := Prod.mk.inj h
          obtain rfl := Option.some.inj hr
          obtain ⟨pages, e', hchain, ⟨text, rfl, hr⟩ | ⟨-, -, hr⟩⟩ := ih hrest
          · obtain rfl := Except.error.inj hr
            refine ⟨resp :: pages, some e, .page hanswer ?_, Or.inl ⟨e, rfl, rfl⟩⟩
            simp only [hnext, Option.map_some]
            exact hchain
          · cases hr
        · rw [hrest] at h
          obtain ⟨hr, rfl⟩ := Prod.mk.inj h
          obtain rfl := Option.some.inj hr
          obtain ⟨pages, e', hchain, ⟨text, -, hr⟩ | ⟨rfl, hpages, hr⟩⟩ := ih hrest
          · cases hr
          · refine ⟨resp :: pages, none, .page hanswer ?_, Or.inr ⟨rfl, by simp, ?_⟩⟩
            · simp only [hnext, Option.map_some]
              exact hchain
            · obtain ⟨hmore, htoken⟩ := Prod.mk.inj (Except.ok.inj hr)
              rw [hmore, htoken, connectionsOf, List.flatMap_cons,
                List.getLast?_cons_of_ne_nil hpages]

end chains

end GwsMigrator.GoogleContacts
