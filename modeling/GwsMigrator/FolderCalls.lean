import GwsMigrator.GraphCalls

/-! `ensure_folder` of `microsoft/files.py` and `ensure_contact_folder` of
`microsoft/contacts.py`: a folder is looked for by its name among the others, and created if it
is not there. On a destination that nobody else changes it is found from then on. -/
namespace GwsMigrator
open Dialogue

/-- The call was made and returned `r`. -/
def Returned (g : Graph) (log : Log Call.Ans) (c : Call) (r : c.Result) : Prop :=
  ∃ before, (⟨c, .ok r⟩ :: before : Log Call.Ans) <:+ log ∧ g.answer before c = .ok r

theorem Returned.grow {g : Graph} {log log' : Log Call.Ans} {c : Call} {r : c.Result}
    (h : Returned g log c r) (hlog : log <:+ log') : Returned g log' c r := by
  obtain ⟨before, hsuffix, hanswer⟩ := h
  exact ⟨before, hsuffix.trans hlog, hanswer⟩

/-- An item of a listing. A contact folder is always a folder. -/
structure Listed where
  id : Token
  name : String
  isFolder : Bool := true
deriving DecidableEq

/-- What the destination answers one call with: its listing, which can raise after some pages,
the POST, and the listing after a POST that was refused with 409. -/
structure FolderAnswers where
  listed : Enumeration Listed
  posted : Except Exc Token
  relisted : Enumeration Listed

/-- The match of `_find_child_folder`. -/
def childFolderNamed (casefold : String → String) (name : String) (x : Listed) : Bool :=
  x.isFolder && casefold x.name = casefold name

/-- The match of `_find_contact_folder`. -/
def contactFolderNamed (name : String) (x : Listed) : Bool := x.name = name

section
variable (matching : Listed → Bool)

/-- The loop over the pages: the first match ends it, and an exception only comes after that. -/
def findListed (listing : Enumeration Listed) : Except Exc (Option Token) :=
  match listing.items.find? matching with
  | some x => .ok (some x.id)
  | none =>
    match listing.raised with
    | some e => .error e
    | none => .ok none

/-- The name was taken after all: the folder is looked for once more. -/
def resolveTaken (relisted : Enumeration Listed) (refused : Exc) : Except Exc Token :=
  match findListed matching relisted with
  | .error e => .error e
  | .ok (some id) => .ok id
  | .ok none => .error refused

/-- Both functions, which differ in what they take for a match. -/
def ensureNamed (a : FolderAnswers) : Except Exc Token :=
  match findListed matching a.listed with
  | .error e => .error e
  | .ok (some id) => .ok id
  | .ok none =>
    match a.posted with
    | .ok id => .ok id
    | .error (.http 409 text) => resolveTaken matching a.relisted (.http 409 text)
    | .error e => .error e

/-- A POST is sent: the folder was not in the listing. -/
def sendsPost (a : FolderAnswers) : Bool :=
  match findListed matching a.listed with
  | .ok none => true
  | _ => false

/-- The call showed that the item is there. -/
inductive FolderAnswers.Shows (name : String) (a : FolderAnswers) : Listed → Prop
  | listed (x : Listed) (h : x ∈ a.listed.items) : Shows name a x
  | created (id : Token) (sent : sendsPost matching a = true) (h : a.posted = .ok id) :
      Shows name a { id := id, name := name }
  | relisted (x : Listed) (sent : sendsPost matching a = true) (h : x ∈ a.relisted.items) :
      Shows name a x

end

/-- Folders of one kind at the destination: which call looks for a name under which parent, what
matches the name, and the answers a call gets after a log. -/
structure FolderHost where
  asks : Call → Option (Option Token × String)
  matching : String → Listed → Bool
  answers : Log Call.Ans → Option Token → String → FolderAnswers

namespace FolderHost

variable (host : FolderHost)

/-- The name was looked for after the first log, and the other log goes on from there. -/
def Asked (parent : Option Token) (name : String) (log log' : Log Call.Ans) : Prop :=
  ∃ e : Event Call.Ans, host.asks e.call = some (parent, name) ∧ (e :: log) <:+ log'

/-- Nobody else changes the folders: what a call showed is in every later listing that comes
through, and no other item of a later listing has a name that matches as well. -/
structure Steady : Prop where
  matches_own : ∀ (name : String) (id : Token), host.matching name { id := id, name := name } = true
  stays : ∀ parent name log log' x, host.Asked parent name log log' →
    (host.answers log parent name).Shows (host.matching name) name x →
    (host.answers log' parent name).listed.raised = none →
    x ∈ (host.answers log' parent name).listed.items
  distinct : ∀ parent name log log' x y, host.Asked parent name log log' →
    (host.answers log parent name).Shows (host.matching name) name x →
    y ∈ (host.answers log' parent name).listed.items →
    host.matching name x = true → host.matching name y = true → y = x

end FolderHost

section
variable {matching : Listed → Bool} {a : FolderAnswers}

theorem findListed_eq_some {listing : Enumeration Listed} {id : Token}
    (h : findListed matching listing = .ok (some id)) :
    ∃ x ∈ listing.items, matching x = true ∧ x.id = id := by
  unfold findListed at h
  cases hfind : listing.items.find? matching with
  | some x =>
    rw [hfind] at h
    exact ⟨x, List.mem_of_find?_eq_some hfind, List.find?_some hfind,
      Option.some.inj (Except.ok.inj h)⟩
  | none =>
    rw [hfind] at h
    cases hraised : listing.raised with
    | some e =>
      rw [hraised] at h
      cases h
    | none =>
      rw [hraised] at h
      cases h

theorem findListed_eq_none {listing : Enumeration Listed}
    (h : findListed matching listing = .ok none) :
    listing.raised = none ∧ ∀ x ∈ listing.items, matching x = false := by
  unfold findListed at h
  cases hfind : listing.items.find? matching with
  | some x =>
    rw [hfind] at h
    cases h
  | none =>
    rw [hfind] at h
    cases hraised : listing.raised with
    | some e =>
      rw [hraised] at h
      cases h
    | none => exact ⟨rfl, fun x hx => by simpa using List.find?_eq_none.mp hfind x hx⟩

theorem resolveTaken_eq_ok {relisted : Enumeration Listed} {refused : Exc} {id : Token}
    (h : resolveTaken matching relisted refused = .ok id) :
    ∃ x ∈ relisted.items, matching x = true ∧ x.id = id := by
  unfold resolveTaken at h
  rcases hfind : findListed matching relisted with e | (_ | found) <;> rw [hfind] at h
  · cases h
  · cases h
  · obtain rfl := Except.ok.inj h
    exact findListed_eq_some hfind

/-- The id a call returns is that of a matching item, which it showed to be there. -/
theorem ensureNamed_shows {name : String} {id : Token}
    (hown : ∀ id, matching { id := id, name := name } = true)
    (h : ensureNamed matching a = .ok id) :
    ∃ x, a.Shows matching name x ∧ matching x = true ∧ x.id = id := by
  unfold ensureNamed at h
  rcases hlisted : findListed matching a.listed with e | (_ | found) <;> rw [hlisted] at h
  · cases h
  · have hsent : sendsPost matching a = true := by
      rw [sendsPost, hlisted]
    simp only at h
    -- the POST succeeds, or is refused with a 409
    split at h
    · next made hposted =>
      obtain rfl := Except.ok.inj h
      exact ⟨_, .created made hsent hposted, hown made, rfl⟩
    · obtain ⟨x, hx, hmatch, hid⟩ := resolveTaken_eq_ok h
      exact ⟨x, .relisted x hsent hx, hmatch, hid⟩
    · cases h
  · obtain rfl := Except.ok.inj h
    obtain ⟨x, hx, hmatch, hid⟩ := findListed_eq_some hlisted
    exact ⟨x, .listed x hx, hmatch, hid⟩

/-- What was found or created once is found again: nothing is sent, and if the call comes
through it returns the same id. -/
theorem FolderHost.Steady.found_again {host : FolderHost} (h : host.Steady)
    {parent : Option Token} {name : String} {log log' : Log Call.Ans} {id : Token}
    (hasked : host.Asked parent name log log')
    (hfirst : ensureNamed (host.matching name) (host.answers log parent name) = .ok id) :
    sendsPost (host.matching name) (host.answers log' parent name) = false ∧
      ∀ id', ensureNamed (host.matching name) (host.answers log' parent name) = .ok id' →
        id' = id := by
  obtain ⟨x, hx, hmatch, rfl⟩ := ensureNamed_shows (h.matches_own name) hfirst
  -- what was shown once is listed still, so the second call finds something
  have hlisted : findListed (host.matching name) (host.answers log' parent name).listed ≠
      .ok none := by
    intro hnone
    obtain ⟨hraised, hothers⟩ := findListed_eq_none hnone
    have hstays := hothers x (h.stays parent name log log' x hasked hx hraised)
    rw [hmatch] at hstays
    cases hstays
  unfold sendsPost ensureNamed
  rcases hfound : findListed (host.matching name) (host.answers log' parent name).listed
    with e | (_ | found)
  · refine ⟨rfl, fun id' hid' => ?_⟩
    cases hid'
  · exact absurd hfound hlisted
  · refine ⟨rfl, fun id' hid' => ?_⟩
    obtain rfl := Except.ok.inj hid'
    -- and the names match, so it is the item of the first call
    obtain ⟨y, hy, hmatch', rfl⟩ := findListed_eq_some hfound
    rw [h.distinct parent name log log' x y hasked hx hy hmatch hmatch']

end

/-- The folder of the drive that a call is about. -/
def asksFolder : Call → Option (Option Token × String)
  | .ensureFolder _ parent name => some (parent, name)
  | _ => none

def asksContactFolder : Call → Option (Option Token × String)
  | .ensureContactFolder name => some (none, name)
  | _ => none

/-- The destination of a user's jobs as far as folders go, with Python's `casefold`. -/
structure Destination where
  casefold : String → String
  drive : Log Call.Ans → Option Token → String → FolderAnswers
  contactFolders : Log Call.Ans → String → FolderAnswers

namespace Destination

variable (dest : Destination)

/-- `ensure_folder`. -/
def driveHost : FolderHost where
  asks := asksFolder
  matching := childFolderNamed dest.casefold
  answers := dest.drive

/-- `ensure_contact_folder`. -/
def contactHost : FolderHost where
  asks := asksContactFolder
  matching := contactFolderNamed
  answers log _ name := dest.contactFolders log name

/-- The calls are answered by this destination, and nobody else changes its folders. -/
structure Governs (g : Graph) : Prop where
  folders : ∀ log src parent name, g.answer log (.ensureFolder src parent name) =
    ensureNamed (childFolderNamed dest.casefold name) (dest.drive log parent name)
  contactFolders : ∀ log name, g.answer log (.ensureContactFolder name) =
    ensureNamed (contactFolderNamed name) (dest.contactFolders log name)
  driveSteady : dest.driveHost.Steady
  contactsSteady : dest.contactHost.Steady

/-- The call creates, updates, uploads or deletes something at the destination. Which folders of
a mailbox or calendars are there is not followed: a call for one counts. -/
def writes (log : Log Call.Ans) : Call → Bool
  | .getUser _ | .fetchContactPhoto _ | .findInstance .. | .ensureOnedrive | .getRoot
  | .fetchFile .. => false
  | .ensureFolder _ parent name =>
    sendsPost (childFolderNamed dest.casefold name) (dest.drive log parent name)
  | .ensureContactFolder name =>
    sendsPost (contactFolderNamed name) (dest.contactFolders log name)
  | .createContact .. | .updateContact .. | .deleteContact _ | .setContactPhoto ..
  | .ensureCalendar _ | .createEvent .. | .patchEvent .. | .deleteEvent _
  | .uploadSmallFile .. | .uploadLargeFile .. | .updateFileContent ..
  | .ensureMailFolder .. | .importMessage .. | .patchMessageFlags .. => true

/-- From the log `old` to the log `new` no call wrote. -/
structure Untouched (old new : Log Call.Ans) : Prop where
  grows : old <:+ new
  calls : ∀ (e : Event Call.Ans) log, old <:+ log → (e :: log) <:+ new →
    dest.writes log e.call = false

theorem Untouched.refl (log : Log Call.Ans) : dest.Untouched log log := by
  refine ⟨List.suffix_rfl, fun e log' hold hnew => ?_⟩
  have hlt := (hold.trans (List.suffix_cons e log')).length_le
  have hle := hnew.length_le
  have hgrow := hold.length_le
  simp only [List.length_cons] at hlt hle
  omega

variable {dest}

theorem Untouched.trans {a b c : Log Call.Ans} (h : dest.Untouched a b)
    (h' : dest.Untouched b c) : dest.Untouched a c := by
  refine ⟨h.grows.trans h'.grows, fun e log hold hnew => ?_⟩
  -- a call of the whole is one of the first part or one of the second
  rcases List.suffix_or_suffix_of_suffix hnew h'.grows with hfirst | hsecond
  · exact h.calls e log hold hfirst
  · rcases List.suffix_cons_iff.mp hsecond with heq | hlater
    · exact h.calls e log hold (heq ▸ List.suffix_rfl)
    · exact h'.calls e log hlater hnew

/-- One call more that does not write. -/
theorem Untouched.cons {old new : Log Call.Ans} (h : dest.Untouched old new)
    (e : Event Call.Ans) (he : dest.writes new e.call = false) : dest.Untouched old (e :: new) := by
  refine h.trans ⟨List.suffix_cons e new, fun e' log hold hnew => ?_⟩
  rcases List.suffix_cons_iff.mp hnew with heq | hlonger
  · obtain ⟨rfl, rfl⟩ := List.cons.inj heq
    exact he
  · have hlt := hlonger.length_le
    have hle := hold.length_le
    simp only [List.length_cons] at hlt
    omega

end Destination

end GwsMigrator
