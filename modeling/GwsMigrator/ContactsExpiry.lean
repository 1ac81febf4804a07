import GwsMigrator.ContactsCalls
import GwsMigrator.GoogleContacts
import GwsMigrator.SyncCursor

/-! Contacts behind sync tokens that expire: what lives is never lost, and what was deleted before
the token expired is never deleted at the destination. -/
namespace GwsMigrator
open ChangeFeed Dialogue GoogleContacts Mirror PageChains Program

/-- What the change log knows of a contact. -/
def SourceContact.version (c : SourceContact) : SourceContact where
  sourceId := c.sourceId
  sourceHash := c.sourceHash
  isDeleted := c.isDeleted

/-- A pass settles the versions of what it read. -/
theorem Passed.versions {user : UserMapping} {full : Prop} {items : List SourceContact}
    {db db' : Db} {n : ℕ} (h : Passed contacts user full items db db' n) :
    Passed contacts user full (items.map SourceContact.version) db db' n := by
  refine ⟨fun k hk => h.rows k ?_, h.cursors, fun x hx hlive => ?_⟩
  · rw [List.map_map] at hk
    exact hk
  · obtain ⟨c, hc, rfl⟩ := List.mem_map.mp hx
    obtain ⟨houtcome, hskipped, hkept⟩ := h.settled c hc hlive
    exact ⟨houtcome, hskipped, hkept⟩

namespace GoogleContacts

def Person.version (person : Person) : SourceContact := (toContact ∅ person).version

theorem version_toContact (names : AList (fun _ : String => String)) (person : Person) :
    (toContact names person).version = person.version := rfl

/-- A listing that was read from a position in the log, or whole: the versions that are current, all
that count, and a token of the end of the log if there is one. -/
structure Listed (tok : ℕ → Token) (counts : SourceContact → Prop) (log : List SourceContact)
    (pos : Option ℕ) (read : Connections) : Prop where
  feeds : Feeds SourceContact.sourceId log pos (read.1.map Person.version)
  whole : ChangeFeed.Whole SourceContact.sourceId counts log pos (read.1.map Person.version)
  token : ∀ c, DeltaFeed.truthy read.2 = some c → c = tok log.length

/-- An address book behind the People API, as far as its answers are relied on. `log` are the
versions of its contacts, the latest first, a tombstone for one that was deleted, and `expired` the
positions whose tokens have expired. It stands still while it is read. -/
structure AddressBook (σ : Type) where
  serve : (r : PeopleRequest) → σ → r.Ans × σ
  log : σ → List SourceContact
  expired : σ → ℕ → Prop
  tok : ℕ → Token
  tok_injective : Function.Injective tok
  stays : ∀ r s, log (serve r s).2 = log s
  ages : ∀ r s p, expired s p → expired (serve r s).2 p
  full : ∀ s t pages, ConnectionsChain serve none s (some none) pages none t →
    Listed tok (fun c => c.isDeleted = false) (log s) none (connectionsOf pages) ∧
      ∀ person ∈ (connectionsOf pages).1, person.deleted = false
  delta : ∀ s t p pages, ConnectionsChain serve (some (tok p)) s (some none) pages none t →
    Listed tok (fun _ => True) (log s) (some p) (connectionsOf pages)
  expires : ∀ s t p pages text,
    ConnectionsChain serve (some (tok p)) s (some none) pages (some (.http 410 text)) t →
    expired t p
  refuses : ∀ s t p pages, expired s p →
    ¬ ConnectionsChain serve (some (tok p)) s (some none) pages none t

variable {σ : Type} (book : AddressBook σ)

/-- A run of `iter_contacts` that comes to its end. -/
def Fetches (since : Option Token) (s : σ) (e : Enumeration SourceContact) (s' : σ) : Prop :=
  ∃ fuel, (iterContacts since fuel).run book.serve s = (some e, s')

/-- How the address book moves on: contacts change, and tokens expire. -/
structure Moves (s s' : σ) : Prop where
  changed : book.log s <:+ book.log s'
  expired : ∀ p, book.expired s p → book.expired s' p

variable {book}

variable (book) in
theorem run_stays {α : Type} (p : PeopleProgram α) (s : σ) :
    book.log (p.run book.serve s).2 = book.log s ∧
      ∀ q, book.expired s q → book.expired (p.run book.serve s).2 q := by
  induction p generalizing s with
  | done a => exact ⟨rfl, fun _ h => h⟩
  | request r next ih =>
    obtain ⟨hlog, hexpired⟩ := ih _ (book.serve r s).2
    exact ⟨hlog.trans (book.stays r s), fun q h => hexpired q (book.ages r s q h)⟩

theorem fetches_stays {since : Option Token} {s s' : σ} {e : Enumeration SourceContact}
    (h : Fetches book since s e s') :
    book.log s' = book.log s ∧ ∀ q, book.expired s q → book.expired s' q := by
  obtain ⟨fuel, hrun⟩ := h
  have hstays := run_stays book (iterContacts since fuel) s
  rwa [hrun] at hstays

/-- What an enumeration has read: nothing, the log from where it began, or all that lives because
its token had expired. -/
inductive Read (book : AddressBook σ) (pos : Option ℕ) (s s' : σ) (e : Enumeration SourceContact) :
    Prop
  | nothing (items : e.items = []) (raised : e.raised ≠ none)
  | from_position (current : ∀ p, pos = some p → ¬ book.expired s p)
      (feeds : Feeds SourceContact.sourceId (book.log s) pos
        (e.items.map SourceContact.version))
      (whole : ChangeFeed.Whole SourceContact.sourceId (fun c => pos = none → c.isDeleted = false)
        (book.log s) pos (e.items.map SourceContact.version))
      (living : pos = none → ∀ c ∈ e.items, c.isDeleted = false)
      (cursor : ∀ c, e.lastCursor = some c → c = book.tok (book.log s).length)
  | again (p : ℕ) (position : pos = some p) (expired : book.expired s' p)
      (feeds : Feeds SourceContact.sourceId (book.log s) none
        (e.items.map SourceContact.version))
      (whole : ChangeFeed.Whole SourceContact.sourceId (fun c => c.isDeleted = false)
        (book.log s) none
        (e.items.map SourceContact.version))
      (living : ∀ c ∈ e.items, c.isDeleted = false)
      (cursor : ∀ c, e.lastCursor = some c → c = book.tok (book.log s).length)

/-- The versions of a listing, as an enumeration has them. -/
theorem map_version_toContact (names : AList (fun _ : String => String)) (people : List Person) :
    (people.map (toContact names)).map SourceContact.version = people.map Person.version := by
  rw [List.map_map]
  exact List.map_congr_left (fun person _ => version_toContact names person)

/-- How a run goes: the connections were read from the position or whole, or reading them failed. -/
theorem iterPeople_cases {pos : Option ℕ} {fuel : ℕ} {s t : σ} {r : Except Exc Connections}
    (h : (iterPeople (pos.map book.tok) fuel).run book.serve s = (some r, t)) :
    (∃ e, r = .error e) ∨
    (∃ read, r = .ok read ∧ (∀ p, pos = some p → ¬ book.expired s p) ∧
      Listed book.tok (fun c => pos = none → c.isDeleted = false) (book.log s) pos read ∧
      (pos = none → ∀ person ∈ read.1, person.deleted = false)) ∨
    ∃ p read, pos = some p ∧ book.expired t p ∧ r = .ok read ∧
      Listed book.tok (fun c => c.isDeleted = false) (book.log s) none read ∧
      ∀ person ∈ read.1, person.deleted = false := by
  rw [iterPeople, run_bind] at h
  rcases hlist : (listConnections (pos.map book.tok) fuel none).run book.serve s with
    ⟨_ | r', s₁⟩
  · rw [hlist] at h
    cases h
  · obtain ⟨pages, e, hchain, hend⟩ := listConnections_chain hlist
    rw [hlist] at h
    rcases hend with ⟨e', rfl, rfl⟩ | ⟨rfl, -, rfl⟩
    · -- the listing failed
      simp only at h
      split at h
      · next text heq =>
        obtain rfl := Except.error.inj (Option.some.inj heq)
        cases pos with
        | none =>
          obtain rfl := Option.some.inj (congrArg Prod.fst h)
          exact Or.inl ⟨_, rfl⟩
        | some p =>
          have hstays := run_stays book (listConnections (some (book.tok p)) fuel none) s
          have hexpired := book.expires s s₁ p pages text hchain
          rw [Option.map_some] at hlist
          rw [hlist] at hstays
          rw [Option.map_some, Option.isSome_some, if_pos rfl] at h
          have hlater := run_stays book (listConnections none fuel none) s₁
          rw [h] at hlater
          obtain ⟨pages', e', hchain', ⟨e'', rfl, rfl⟩ | ⟨rfl, -, rfl⟩⟩ :=
            listConnections_chain h
          · exact Or.inl ⟨_, rfl⟩
          · obtain ⟨hlisted, hliving⟩ := book.full s₁ t pages' hchain'
            rw [hstays.1] at hlisted
            exact Or.inr (Or.inr ⟨p, _, rfl, hlater.2 p hexpired, rfl, hlisted, hliving⟩)
      · obtain rfl := Option.some.inj (congrArg Prod.fst h)
        exact Or.inl ⟨_, rfl⟩
    · obtain rfl := Option.some.inj (congrArg Prod.fst h)
      refine Or.inr (Or.inl ⟨_, rfl, ?_⟩)
      cases pos with
      | none =>
        obtain ⟨hlisted, hliving⟩ := book.full s s₁ pages hchain
        have hwhole : ChangeFeed.Whole SourceContact.sourceId
            (fun c => (none : Option ℕ) = none → c.isDeleted = false) (book.log s) none _ :=
          fun x hx hpos hcounts => hlisted.whole x hx hpos (hcounts rfl)
        exact ⟨fun p hp => (by cases hp), ⟨hlisted.feeds, hwhole, hlisted.token⟩, fun _ => hliving⟩
      | some p =>
        have hlisted := book.delta s s₁ p pages hchain
        have hcurrent : ∀ q, some p = some q → ¬ book.expired s q := by
          intro q hq hexpired
          obtain rfl := Option.some.inj hq
          exact book.refuses s s₁ p pages hexpired hchain
        exact ⟨hcurrent, ⟨hlisted.feeds, fun x hx hpos _ => hlisted.whole x hx hpos trivial,
          hlisted.token⟩, fun hpos => by cases hpos⟩

theorem fetches_read {pos : Option ℕ} {s s' : σ} {e : Enumeration SourceContact}
    (h : Fetches book (pos.map book.tok) s e s') : Read book pos s s' e := by
  obtain ⟨fuel, hrun⟩ := h
  rw [iterContacts, run_bind] at hrun
  rcases hpeople : (iterPeople (pos.map book.tok) fuel).run book.serve s with ⟨_ | r, s₁⟩
  · rw [hpeople] at hrun
    cases hrun
  · have hcases := iterPeople_cases hpeople
    rw [hpeople] at hrun
    cases r with
    | error e' =>
      obtain rfl := Option.some.inj (congrArg Prod.fst hrun)
      exact .nothing rfl (by simp)
    | ok read =>
      obtain ⟨people, newToken⟩ := read
      simp only [perform_bind, run_request] at hrun
      have hages := book.ages .contactGroups s₁
      cases hgroups : (book.serve .contactGroups s₁).1 with
      | error e' =>
        rw [hgroups] at hrun
        obtain rfl := Option.some.inj (congrArg Prod.fst hrun)
        exact .nothing rfl (by simp)
      | ok groups =>
        rw [hgroups] at hrun
        obtain ⟨he, rfl⟩ := Prod.mk.inj hrun
        obtain rfl := Option.some.inj he
        have hliving : ∀ {people : List Person},
            (∀ person ∈ people, person.deleted = false) →
            ∀ c ∈ people.map (toContact (groupNames groups)), c.isDeleted = false := by
          intro people hpeople c hc
          obtain ⟨person, hperson, rfl⟩ := List.mem_map.mp hc
          exact hpeople person hperson
        rcases hcases with ⟨e', he'⟩ |
          ⟨read, hread, hcurrent, hlisted, halive⟩ |
          ⟨p, read, rfl, hexpired, hread, hlisted, halive⟩
        · cases he'
        · obtain rfl := Except.ok.inj hread
          refine .from_position hcurrent ?_ ?_ (fun hpos => hliving (halive hpos)) hlisted.token
          · rw [map_version_toContact]
            exact hlisted.feeds
          · rw [map_version_toContact]
            exact hlisted.whole
        · obtain rfl := Except.ok.inj hread
          refine .again p rfl (hages p hexpired) ?_ ?_ (hliving halive) hlisted.token
          · rw [map_version_toContact]
            exact hlisted.feeds
          · rw [map_version_toContact]
            exact hlisted.whole

theorem Read.nodup {pos : Option ℕ} {s s' : σ} {e : Enumeration SourceContact}
    (h : Read book pos s s' e) : (e.items.map SourceContact.sourceId).Nodup := by
  have hkeys : ∀ items : List SourceContact,
      (items.map SourceContact.version).map SourceContact.sourceId =
        items.map SourceContact.sourceId := by
    intro items
    rw [List.map_map]
    rfl
  cases h with
  | nothing items => rw [items]; exact List.nodup_nil
  | from_position _ feeds => exact hkeys _ ▸ feeds.nodup
  | again _ _ _ feeds => exact hkeys _ ▸ feeds.nodup

variable (book) (g : Graph) (user : UserMapping)

/-- What the store and the address book come to: the book moves on, or a pass runs. No full pass
meets a contact that is done in another version than the current one. -/
inductive Reached : World → σ → Prop
  | start (s : σ) : Reached {} s
  | moved {w : World} {s s' : σ} (before : Reached w s) (moves : Moves book s s') : Reached w s'
  | passed {w : World} {s s' : σ} (before : Reached w s) (mode : Mode)
      (source : Option Token → Enumeration SourceContact)
      (fetched : ∀ since, startFrom mode (w.db.getCursor ⟨user.sourceId, "contacts"⟩) = some since →
        Fetches book since s (source since) s')
      (moves : Moves book s s')
      (fresh : mode = .full → Fresh contacts user (book.log s) w.db) :
      Reached (runContacts g user mode source w).world s'

/-- The stored cursor is a position whose token has expired, or up to which all that lives is
applied. -/
def Behind (w : World) (s : σ) : Prop :=
  ∃ cursor : Option ℕ,
    w.db.getCursor (contacts.cursorKey user) = cursor.map book.tok ∧
    ((∃ p, cursor = some p ∧ book.expired s p) ∨
      UpToDate contacts.sourceId contacts.marker contacts.live (book.log s) cursor
        (contacts.applied user w.db))

variable {book g user}

theorem Behind.moved {w : World} {s s' : σ} (h : Behind book user w s) (hmoves : Moves book s s') :
    Behind book user w s' := by
  obtain ⟨cursor, hcursor, ⟨p, rfl, hexpired⟩ | hup⟩ := h
  · exact ⟨some p, hcursor, Or.inl ⟨p, rfl, hmoves.expired p hexpired⟩⟩
  · exact ⟨cursor, hcursor, Or.inr (hup.grow hmoves.changed)⟩

/-- A pass starts at a position, and reads from there. -/
theorem read_of_start {mode : Mode} {w : World} {s s' : σ} {cursor : Option ℕ}
    (hcursor : w.db.getCursor (contacts.cursorKey user) = cursor.map book.tok)
    {source : Option Token → Enumeration SourceContact}
    (fetched : ∀ since, startFrom mode (w.db.getCursor ⟨user.sourceId, "contacts"⟩) = some since →
      Fetches book since s (source since) s') {since : Option Token}
    (start : startFrom mode (w.db.getCursor ⟨user.sourceId, "contacts"⟩) = some since) :
    ∃ pos : Option ℕ, since = pos.map book.tok ∧
      ((pos = none ∧ mode = .full) ∨ pos = cursor) ∧ Read book pos s s' (source since) := by
  have hfetch := fetched since start
  have hstart : startFrom mode (cursor.map book.tok) = some since := hcursor ▸ start
  obtain ⟨pos, rfl, hpos⟩ := startFrom_position hstart
  exact ⟨pos, rfl, hpos, fetches_read hfetch⟩

theorem Behind.passed {w : World} {s s' : σ} (h : Behind book user w s) {mode : Mode}
    {source : Option Token → Enumeration SourceContact}
    (fetched : ∀ since, startFrom mode (w.db.getCursor ⟨user.sourceId, "contacts"⟩) = some since →
      Fetches book since s (source since) s')
    (moves : Moves book s s') (fresh : mode = .full → Fresh contacts user (book.log s) w.db) :
    Behind book user (runContacts g user mode source w).world s' := by
  obtain ⟨cursor, hcursor, hbehind⟩ := h
  have hran := @runContacts_ran_of_nodup g user mode source w (fun since start => by
      obtain ⟨_, _, _, hread⟩ := read_of_start hcursor fetched start
      exact hread.nodup)
  cases hran with
  | idle _ same =>
    refine Behind.moved ⟨cursor, (congrFun same.cursors _).trans hcursor, ?_⟩ moves
    have happlied : contacts.applied user (runContacts g user mode source w).world.db =
        contacts.applied user w.db := Workload.applied_of_rows same.rows
    rw [happlied]
    exact hbehind
  | passed since n db₁ _ start pass rows saved =>
    obtain ⟨pos, rfl, hpos, hread⟩ := read_of_start hcursor fetched start
    have hlog := (fetches_stays (fetched _ start)).1
    have happlied : contacts.applied user (runContacts g user mode source w).world.db =
        contacts.applied user db₁ := Workload.applied_of_rows rows
    have hsame : (runContacts g user mode source w).world.db.getCursor = db₁.getCursor →
        (runContacts g user mode source w).world.db.getCursor (contacts.cursorKey user) =
          cursor.map book.tok := by
      intro hsame
      rw [hsame, pass.cursors, hcursor]
    have hlive : ∀ items : List SourceContact, ∀ x ∈ items.map SourceContact.version,
        contacts.live x → x.isDeleted = false := fun _ _ _ h => h
    cases hread with
    | nothing items raised =>
      -- the cursor cannot have moved, since the source raised
      rcases saved with hleft | ⟨-, hraised, -⟩
      · refine Behind.moved ⟨cursor, hsame hleft, ?_⟩ moves
        rw [items] at pass
        rw [happlied, pass.applied_nil]
        exact hbehind
      · exact absurd hraised raised
    | from_position current feeds whole living hlast =>
      have happlies := pass.versions.applies
        (fun hfull x hx hlive => fresh hfull x (feeds.sound x hx).1 hlive)
      have hwhole : ChangeFeed.Whole SourceContact.sourceId contacts.live (book.log s) pos
          ((source (pos.map book.tok)).items.map SourceContact.version) :=
        fun x hx hchanged hcounts => whole x hx hchanged (fun _ => hcounts)
      rcases saved with hleft | ⟨hn, -, c, hc, hsaved⟩
      · rcases hbehind with ⟨p, rfl, hexpired⟩ | hup
        · exact ⟨some p, hsame hleft, Or.inl ⟨p, rfl, moves.expired p hexpired⟩⟩
        · refine ⟨cursor, hsame hleft, Or.inr ?_⟩
          rw [hlog, happlied]
          exact hup.pass feeds hpos happlies (Or.inl rfl)
      · refine ⟨some (book.log s).length, ?_, Or.inr ?_⟩
        · rw [hsaved, Function.update_self, hlast c hc, Option.map_some]
        · rw [hlog, happlied]
          -- a full pass starts anew, and a delta pass from a token that had not expired
          rcases hpos with ⟨rfl, hfull⟩ | rfl
          · exact upToDate_none.pass feeds (Or.inl ⟨rfl, hfull⟩) happlies
              (Or.inr ⟨hn, hwhole, rfl⟩)
          · rcases hbehind with ⟨p, rfl, hexpired⟩ | hup
            · exact absurd hexpired (current p rfl)
            · exact hup.pass feeds (Or.inr rfl) happlies (Or.inr ⟨hn, hwhole, rfl⟩)
    | again p position expired feeds whole living hlast =>
      -- the token had expired, and a full listing was read in its place
      subst position
      obtain rfl : some p = cursor := hpos.resolve_left (fun h => by cases h.1)
      rcases saved with hleft | ⟨hn, -, c, hc, hsaved⟩
      · exact ⟨some p, hsame hleft, Or.inl ⟨p, rfl, expired⟩⟩
      · refine ⟨some (book.log s).length, ?_, Or.inr ?_⟩
        · rw [hsaved, Function.update_self, hlast c hc, Option.map_some]
        · have happlies := pass.versions.applies
            (fun hfull x hx hlive => fresh hfull x (feeds.sound x hx).1 hlive)
          rw [hlog, happlied]
          exact upToDate_none.pass feeds (Or.inr rfl) happlies (Or.inr ⟨hn, whole, rfl⟩)

theorem Reached.behind {w : World} {s : σ} (h : Reached book g user w s) :
    Behind book user w s := by
  induction h with
  | start s => exact ⟨none, rfl, Or.inr upToDate_none⟩
  | moved before moves ih => exact ih.moved moves
  | passed before mode source fetched moves fresh ih => exact ih.passed fetched moves fresh

/-- No contact that lives is lost behind the contacts cursor, whatever changes and whatever tokens
expire between the passes and whatever calls fail: it is done in its current version, or every
delta pass that reads the address book to its end yields it. -/
theorem contacts_survive_expiry {w : World} {s : σ} (h : Reached book g user w s) :
    ∀ c, w.db.getCursor ⟨user.sourceId, "contacts"⟩ = some c →
      ∀ e s', Fetches book (some c) s e s' → e.raised = none → ∀ x,
        latest SourceContact.sourceId (book.log s) x.sourceId = some x → x.isDeleted = false →
        (∃ row, w.db.getItemState (contactKey user x.sourceId) = some row ∧ row.status = .done ∧
          row.sourceHash = orNone x.sourceHash) ∨ ∃ y ∈ e.items, y.version = x := by
  intro c hc e s' hfetch hraised x hx hlive
  obtain ⟨cursor, hcursor, hbehind⟩ := h.behind
  have hstored : cursor.map book.tok = some c := hcursor.symm.trans hc
  obtain ⟨p, rfl, rfl⟩ := Option.map_eq_some_iff.mp hstored
  have hyields : x ∈ e.items.map SourceContact.version → ∃ y ∈ e.items, y.version = x :=
    fun hmem => List.mem_map.mp hmem
  have hread : Read book (some p) s s' e := fetches_read hfetch
  cases hread with
  | nothing items raised => exact absurd hraised raised
  | from_position current feeds whole living hlast =>
    have hup := hbehind.resolve_left (by
      rintro ⟨q, hq, hexpired⟩
      exact current q hq hexpired)
    by_cases hchanged : changedAt SourceContact.sourceId (book.log s) x.sourceId ≤ p
    · exact Or.inl (Db.applied_eq_some.mp ((hup p rfl).2 x hx hchanged hlive))
    · refine Or.inr (hyields (whole x hx (fun q hq => ?_) (fun h => by cases h)))
      obtain rfl := Option.some.inj hq
      omega
  | again q position expired feeds whole living hlast =>
    exact Or.inr (hyields (whole x hx (fun q hq => by cases hq) hlive))

/-! Deletions. -/

/-- The deletion of a contact was carried out since the log was `log`: the copy that was on record
got a delete that was answered so that it is gone, and the row forgot it. -/
structure Removed (k : ItemKey) (copy : Option Token) (log : Log Call.Ans) (w : World) : Prop where
  row : ∃ row, w.db.getItemState k = some row ∧ row.status = .skipped ∧ row.destId = none
  deleted : ∀ id, copy = some id → ∃ newer, w.log = newer ++ log ∧
    ∃ event ∈ newer, contactEffect event = .delete id

theorem Removed.congr {k : ItemKey} {copy : Option Token} {log : Log Call.Ans} {w w' : World}
    (h : Removed k copy log w) (hrow : w'.db.getItemState k = w.db.getItemState k)
    (hlog : w.log <:+ w'.log) : Removed k copy log w' := by
  obtain ⟨more, hmore⟩ := hlog
  refine ⟨hrow ▸ h.row, fun id hid => ?_⟩
  obtain ⟨newer, hnewer, event, hevent, hgone⟩ := h.deleted id hid
  refine ⟨more ++ newer, ?_, event, List.mem_append_right _ hevent, hgone⟩
  rw [← hmore, hnewer, List.append_assoc]

theorem Removed.noCopy {k : ItemKey} {copy : Option Token} {log : Log Call.Ans} {w : World}
    (h : Removed k copy log w) (hmirrors : w.Mirrors contactEffect) :
    copiesOf (replay contactEffect w.log) k = [] := by
  obtain ⟨row, hrow, -, hforgets⟩ := h.row
  rw [hmirrors.copies, Db.recorded_eq, hrow]
  exact congrArg Option.toList hforgets

/-- What was carried out since a later log was so since this one. -/
theorem Removed.since {k : ItemKey} {copy copy' : Option Token} {log log' : Log Call.Ans} {w : World}
    (h : Removed k copy log w) (hlog : log' <:+ log) (hcopy : copy = copy') :
    Removed k copy' log' w := by
  obtain ⟨more, hmore⟩ := hlog
  refine ⟨h.row, fun id hid => ?_⟩
  obtain ⟨newer, hnewer, event, hevent, hgone⟩ := h.deleted id (hcopy.trans hid)
  refine ⟨newer ++ more, ?_, event, List.mem_append_left _ hevent, hgone⟩
  rw [hnewer, ← hmore, List.append_assoc]

/-- A tombstone is carried out, or counts as a failure. -/
theorem processContact_removes (mode : Mode) (st : ContactsLoop) {c : SourceContact}
    (hdeleted : c.isDeleted = true) :
    st.failures < (processContact g user mode st c).failures ∨
      Removed (contactKey user c.sourceId) (st.world.db.recorded (contactKey user c.sourceId))
        st.world.log (processContact g user mode st c).world := by
  have hr := recorded_of_getItemState (w := st.world) (k := contactKey user c.sourceId) rfl
  simp only [processContact, if_pos hdeleted, ← hr]
  cases st.world.db.recorded (contactKey user c.sourceId) with
  | none =>
    refine Or.inr ⟨⟨_, Db.getItemState_upsertItem_self .., rfl, rfl⟩, fun id hid => ?_⟩
    exact absurd hid (Option.some_ne_none id).symm
  | some id =>
    simp only [removeContact]
    obtain ⟨hd, hgone⟩ | ⟨e, hd, -⟩ := deleteContact_cases g st.world id
    · rw [hd]
      refine Or.inr ⟨⟨_, Db.getItemState_upsertItem_self .., rfl, rfl⟩, fun id' hid => ?_⟩
      obtain rfl := Option.some.inj hid
      exact ⟨[_], rfl, _, List.mem_singleton.mpr rfl, hgone⟩
    · rw [hd]
      exact Or.inl (Nat.lt_succ_self _)

/-- A pass that moves the cursor has carried out the deletions that it read. -/
theorem runContacts_removes {mode : Mode} {source : Option Token → Enumeration SourceContact}
    {w : World} {since : Option Token}
    (hstart : startFrom mode (w.db.getCursor ⟨user.sourceId, "contacts"⟩) = some since)
    (hnodup : ((source since).items.map SourceContact.sourceId).Nodup) {c : SourceContact}
    (hc : c ∈ (source since).items) (hdeleted : c.isDeleted = true)
    (hmoved : (runContacts g user mode source w).world.db.getCursor ⟨user.sourceId, "contacts"⟩ ≠
      w.db.getCursor ⟨user.sourceId, "contacts"⟩) :
    Removed (contactKey user c.sourceId) (w.db.recorded (contactKey user c.sourceId)) w.log
      (runContacts g user mode source w).world := by
  have hsame := startContacts_same g user w
  have hbegun := (startContacts_calls g user (fun _ => True) trivial (fun _ => trivial) w).suffix
  simp only [runContacts, hstart] at hmoved ⊢
  rcases hst : startContacts g user w with ⟨e | _, st⟩ <;> rw [hst] at hsame hmoved hbegun
  · exact absurd (congrFun hsame.cursors _) hmoved
  · simp only [migrateContacts] at hmoved ⊢
    have hpass := Passed.of_steps contacts user (mode = .full)
      (fun st : ContactsLoop => st.world.db) ContactsLoop.failures (processContact g user mode)
      hnodup st (fun st' c _ => processContact_rowStep g user mode st' c)
      (fun st' c _ hlive => processContact_settles g user mode st' c hlive)
    have hremoved := Runs.foldl_settles (processContact g user mode) SourceContact.sourceId
      -- a contact that waits for its turn has its row of the start, and the log has grown
      (fun st c => w.log <:+ st.world.log ∧
        st.world.db.getItemState (contactKey user c.sourceId) =
          w.db.getItemState (contactKey user c.sourceId))
      (fun st c => c.isDeleted = true → 0 < st.failures ∨
        Removed (contactKey user c.sourceId) (w.db.recorded (contactKey user c.sourceId)) w.log
          st.world)
      (source since).items hnodup
      (fun st c _ hready hdeleted => (processContact_removes mode st hdeleted).imp
        (fun h => Nat.lt_of_le_of_lt (Nat.zero_le _) h)
        (fun h => h.since hready.1 (by rw [Db.recorded_eq, Db.recorded_eq, hready.2])))
      (fun st c _ c' _ hne hready =>
        ⟨hready.1.trans (processContact_calls g user mode st c).suffix,
          ((processContact_rowStep g user mode st c).rows _
            (fun he => hne ((contactKey_inj user).mp he).symm)).trans hready.2⟩)
      (fun st c _ c' _ hne hset hdeleted => by
        have hstep := processContact_rowStep g user mode st c
        refine (hset hdeleted).imp (fun hpos => Nat.lt_of_lt_of_le hpos hstep.failures) (fun h => ?_)
        exact h.congr (hstep.rows _ (fun he => hne ((contactKey_inj user).mp he).symm))
          (processContact_calls g user mode st c).suffix)
      st (fun c _ => ⟨hbegun, congrFun hsame.rows _⟩) c hc hdeleted
    simp only at hsame
    have hbefore : ((source since).items.foldl (processContact g user mode) st).world.db.getCursor
        ⟨user.sourceId, "contacts"⟩ = w.db.getCursor ⟨user.sourceId, "contacts"⟩ :=
      (congrFun hpass.cursors _).trans (congrFun hsame.cursors _)
    by_cases hraised : (source since).raised.isSome = true
    · rw [if_pos hraised] at hmoved
      exact absurd hbefore hmoved
    · rw [if_neg hraised] at hmoved ⊢
      rcases hremoved with hpos | hskipped
      · rcases advanceCursor_getCursor
          { world := ((source since).items.foldl (processContact g user mode) st).world
            failures := ((source since).items.foldl (processContact g user mode) st).failures
            raised := (source since).raised : JobResult } ⟨user.sourceId, "contacts"⟩
          ((source since).items.foldl (processContact g user mode) st).failures
          (source since).lastCursor with hleft | ⟨hzero, -⟩
        · exact absurd ((congrFun hleft _).trans hbefore) hmoved
        · omega
      · refine hskipped.congr (advanceCursor_getItemState ..) ?_
        rw [advanceCursor_log]

variable (book g user) in
/-- What comes after a state in which a contact is not changed any more. -/
inductive Later (id : String) (w₀ : World) (s₀ : σ) : World → σ → Prop
  | here : Later id w₀ s₀ w₀ s₀
  | moved {w : World} {s s' : σ} (before : Later id w₀ s₀ w s) (moves : Moves book s s')
      (unchanged : ∀ changes, book.log s' = changes ++ book.log s →
        ∀ x ∈ changes, x.sourceId ≠ id) : Later id w₀ s₀ w s'
  | passed {w : World} {s s' : σ} (before : Later id w₀ s₀ w s) (mode : Mode)
      (source : Option Token → Enumeration SourceContact)
      (fetched : ∀ since, startFrom mode (w.db.getCursor ⟨user.sourceId, "contacts"⟩) = some since →
        Fetches book since s (source since) s')
      (moves : Moves book s s')
      (unchanged : ∀ changes, book.log s' = changes ++ book.log s →
        ∀ x ∈ changes, x.sourceId ≠ id) :
      Later id w₀ s₀ (runContacts g user mode source w).world s'

/-- A contact that was deleted, and whose tombstone no pass will read: the stored token has expired,
or is not before the deletion. -/
structure Forgotten (book : AddressBook σ) (user : UserMapping) (id : String)
    (row : Option ItemValues) (w : World) (s : σ) : Prop where
  row : w.db.getItemState (contactKey user id) = row
  dead : ∃ x, latest SourceContact.sourceId (book.log s) id = some x ∧ x.isDeleted = true
  cursor : ∃ p, w.db.getCursor ⟨user.sourceId, "contacts"⟩ = some (book.tok p) ∧
    (book.expired s p ∨ changedAt SourceContact.sourceId (book.log s) id ≤ p)

theorem Forgotten.moved {id : String} {row : Option ItemValues} {w : World} {s s' : σ}
    (h : Forgotten book user id row w s) (moves : Moves book s s')
    (unchanged : ∀ changes, book.log s' = changes ++ book.log s → ∀ x ∈ changes, x.sourceId ≠ id) :
    Forgotten book user id row w s' := by
  obtain ⟨changes, hchanges⟩ := moves.changed
  have hother := unchanged changes hchanges.symm
  have hlog : latest SourceContact.sourceId (book.log s') id =
      latest SourceContact.sourceId (book.log s) id ∧
      changedAt SourceContact.sourceId (book.log s') id =
        changedAt SourceContact.sourceId (book.log s) id := by
    rw [← hchanges]
    clear hchanges unchanged
    induction changes with
    | nil => exact ⟨rfl, rfl⟩
    | cons x changes ih =>
      have hne := hother x List.mem_cons_self
      rw [List.cons_append, latest_cons, changedAt, if_neg hne, if_neg hne]
      exact ih (fun y hy => hother y (List.mem_cons_of_mem x hy))
  obtain ⟨p, hp, hread⟩ := h.cursor
  refine ⟨h.row, hlog.1 ▸ h.dead, p, hp, ?_⟩
  rw [hlog.2]
  exact hread.imp (moves.expired p) (fun hle => hle)

/-- No pass reads the tombstone. -/
theorem Forgotten.notMem {id : String} {row : Option ItemValues} {w : World} {s s' : σ}
    (h : Forgotten book user id row w s) {pos : Option ℕ}
    (hpos : ∀ p, pos = some p →
      w.db.getCursor ⟨user.sourceId, "contacts"⟩ = some (book.tok p))
    {e : Enumeration SourceContact} (hread : Read book pos s s' e) :
    id ∉ e.items.map SourceContact.sourceId := by
  obtain ⟨x, hx, hdead⟩ := h.dead
  -- a listing of all that lives has no version of it
  have hfull : ∀ {items : List SourceContact},
      Feeds SourceContact.sourceId (book.log s) none (items.map SourceContact.version) →
      (∀ c ∈ items, c.isDeleted = false) → id ∉ items.map SourceContact.sourceId := by
    intro items hfeeds hliving hmem
    obtain ⟨c, hc, rfl⟩ := List.mem_map.mp hmem
    have hsound := (hfeeds.sound _ (List.mem_map_of_mem hc)).1
    have hsame : x = c.version := Option.some.inj (hx.symm.trans hsound)
    have halive := hliving c hc
    rw [hsame] at hdead
    exact absurd (hdead.symm.trans halive) (by simp)
  cases hread with
  | nothing items => rw [items]; exact List.not_mem_nil
  | from_position current feeds whole living =>
    cases pos with
    | none => exact hfull feeds (living rfl)
    | some p =>
      intro hmem
      obtain ⟨c, hc, rfl⟩ := List.mem_map.mp hmem
      have hchanged := (feeds.sound _ (List.mem_map_of_mem hc)).2 p rfl
      obtain ⟨q, hq, hexpired | hle⟩ := h.cursor
      · obtain rfl := book.tok_injective (Option.some.inj (hq.symm.trans (hpos p rfl)))
        exact current _ rfl hexpired
      · obtain rfl := book.tok_injective (Option.some.inj (hq.symm.trans (hpos p rfl)))
        exact absurd hle (Nat.not_le.mpr hchanged)
  | again _ _ _ feeds _ living => exact hfull feeds living

/-- No pass that comes later yields it. -/
theorem Forgotten.notYielded {id : String} {row : Option ItemValues} {w : World} {s s' : σ}
    (h : Forgotten book user id row w s) {mode : Mode}
    {source : Option Token → Enumeration SourceContact}
    (fetched : ∀ since, startFrom mode (w.db.getCursor ⟨user.sourceId, "contacts"⟩) = some since →
      Fetches book since s (source since) s') {since : Option Token}
    (start : startFrom mode (w.db.getCursor ⟨user.sourceId, "contacts"⟩) = some since) :
    id ∉ (source since).items.map SourceContact.sourceId := by
  obtain ⟨p, hp, -⟩ := h.cursor
  have hcursor : w.db.getCursor (contacts.cursorKey user) = (some p).map book.tok := hp
  obtain ⟨pos, rfl, hpos, hread⟩ := read_of_start hcursor fetched start
  refine h.notMem (fun q hq => ?_) hread
  rcases hpos with ⟨rfl, -⟩ | rfl
  · cases hq
  · obtain rfl := Option.some.inj hq
    exact hp

theorem Forgotten.passed {id : String} {row : Option ItemValues} {w : World} {s s' : σ}
    (h : Forgotten book user id row w s) {mode : Mode}
    {source : Option Token → Enumeration SourceContact}
    (fetched : ∀ since, startFrom mode (w.db.getCursor ⟨user.sourceId, "contacts"⟩) = some since →
      Fetches book since s (source since) s')
    (moves : Moves book s s')
    (unchanged : ∀ changes, book.log s' = changes ++ book.log s → ∀ x ∈ changes, x.sourceId ≠ id) :
    Forgotten book user id row (runContacts g user mode source w).world s' := by
  have hlater := h.moved moves unchanged
  obtain ⟨p, hp, hgone⟩ := hlater.cursor
  have hcursor : w.db.getCursor (contacts.cursorKey user) = (some p).map book.tok := hp
  have hran := @runContacts_ran_of_nodup g user mode source w (fun since start => by
      obtain ⟨_, _, _, hread⟩ := read_of_start hcursor fetched start
      exact hread.nodup)
  cases hran with
  | idle _ same =>
    exact ⟨(congrFun same.rows _).trans h.row, hlater.dead, p,
      (congrFun same.cursors _).trans hp, hgone⟩
  | passed since n db₁ _ start pass rows saved =>
    have hnot := h.notYielded fetched start
    obtain ⟨pos, rfl, -, hread⟩ := read_of_start hcursor fetched start
    have hlog := (fetches_stays (fetched _ start)).1
    refine ⟨?_, hlater.dead, ?_⟩
    · rw [rows, pass.rows _ (fun hmem => hnot ?_)]
      · exact h.row
      · obtain ⟨c, hc, hkey⟩ := List.mem_map.mp hmem
        exact Workload.key_inj.mp hkey ▸ List.mem_map_of_mem hc
    · rcases saved with hleft | ⟨-, hraised, c, hc, hsaved⟩
      · refine ⟨p, ?_, hgone⟩
        rw [hleft, pass.cursors]
        exact hp
      · refine ⟨(book.log s).length, ?_, Or.inr ?_⟩
        · have hlast : c = book.tok (book.log s).length := by
            cases hread with
            | nothing items raised => exact absurd hraised raised
            | from_position _ _ _ _ hlast => exact hlast c hc
            | again _ _ _ _ _ _ hlast => exact hlast c hc
          rw [hsaved]
          exact (Function.update_self ..).trans (congrArg some hlast)
        · rw [← hlog]
          exact changedAt_le_length _ _

section later

variable {id : String} {row : Option ItemValues} {w w' : World} {s s' : σ}

theorem Later.forgotten (h : Later book g user id w s w' s')
    (hforgotten : Forgotten book user id row w s) : Forgotten book user id row w' s' := by
  induction h with
  | here => exact hforgotten
  | moved before moves unchanged ih => exact ih.moved moves unchanged
  | passed before mode source fetched moves unchanged ih =>
    exact ih.passed fetched moves unchanged

/-- No call of the passes is on it. -/
theorem Later.leaves (h : Later book g user id w s w' s')
    (hforgotten : Forgotten book user id row w s) (hmirrors : w.Mirrors contactEffect) :
    w'.Mirrors contactEffect ∧
      CallsFrom (fun call => ¬ call.OnContact (contactKey user id)
        (w.db.recorded (contactKey user id))) w.log w' := by
  induction h with
  | here => exact ⟨hmirrors, CallsFrom.refl _ _⟩
  | moved before moves unchanged ih => exact ih
  | @passed w₁ s₁ s₂ before mode source fetched moves unchanged ih =>
    obtain ⟨hmirrors₁, hcalls⟩ := ih
    have hforgotten₁ := before.forgotten hforgotten
    -- the row is still the same, and so is the copy on record
    have hsame : w₁.db.recorded (contactKey user id) = w.db.recorded (contactKey user id) := by
      rw [Db.recorded_eq, Db.recorded_eq, hforgotten₁.row, hforgotten.row]
    have hpass := runContacts_leaves g user mode source w₁ hmirrors₁
      (fun since start => hforgotten₁.notYielded fetched start)
    rw [hsame] at hpass
    exact ⟨runContacts_mirrors g user mode source w₁ hmirrors₁, hcalls.trans hpass⟩

end later

/-- A contact that is deleted is deleted at the destination by the first pass from a token before
its deletion that moves the cursor, if the token has not expired until then: the copy on record gets
a delete that is answered so that it is gone, and where the store mirrors the destination no copy is
left. If the token has expired, then no pass ever touches the row again, and where the store mirrors
the destination no call of any pass is on the copy, which stays, unless the contact is changed once
more. -/
theorem deletion_until_expiry {w : World} {s : σ} {p : ℕ}
    (hcursor : w.db.getCursor ⟨user.sourceId, "contacts"⟩ = some (book.tok p)) {x : SourceContact}
    (hx : latest SourceContact.sourceId (book.log s) x.sourceId = some x)
    (hdead : x.isDeleted = true)
    (hafter : p < changedAt SourceContact.sourceId (book.log s) x.sourceId) :
    (∀ source s',
      Fetches book (some (book.tok p)) s (source (some (book.tok p))) s' → ¬ book.expired s' p →
      (runContacts g user .delta source w).world.db.getCursor ⟨user.sourceId, "contacts"⟩ ≠
        some (book.tok p) →
      Removed (contactKey user x.sourceId) (w.db.recorded (contactKey user x.sourceId)) w.log
          (runContacts g user .delta source w).world ∧
        (w.Mirrors contactEffect → copiesOf (replay contactEffect
          (runContacts g user .delta source w).world.log) (contactKey user x.sourceId) = [])) ∧
    (book.expired s p → ∀ w' s', Later book g user x.sourceId w s w' s' →
      w'.db.getItemState (contactKey user x.sourceId) =
          w.db.getItemState (contactKey user x.sourceId) ∧
        (w.Mirrors contactEffect →
          CallsFrom (fun call => ¬ call.OnContact (contactKey user x.sourceId)
            (w.db.recorded (contactKey user x.sourceId))) w.log w' ∧
          copiesOf (replay contactEffect w'.log) (contactKey user x.sourceId) =
            (w.db.recorded (contactKey user x.sourceId)).toList)) := by
  have hstart : startFrom .delta (w.db.getCursor ⟨user.sourceId, "contacts"⟩) =
      some (some (book.tok p)) := by
    rw [hcursor]
    rfl
  refine ⟨fun source s' hfetch hlasts hmoved => ?_, fun hexpired w' s' hlater => ?_⟩
  · have hread : Read book (some p) s s' _ := fetches_read hfetch
    have hnodup := hread.nodup
    rw [← hcursor] at hmoved
    cases hread with
    | nothing items raised =>
      -- such a pass does not move the cursor
      exfalso
      have hran := @runContacts_ran_of_nodup g user .delta source w (fun since start => by
          obtain rfl := Option.some.inj (hstart.symm.trans start)
          exact hnodup)
      cases hran with
      | idle _ same => exact hmoved (congrFun same.cursors _)
      | passed since n db₁ _ start pass rows saved =>
        obtain rfl := Option.some.inj (hstart.symm.trans start)
        rcases saved with hleft | ⟨-, hraised, -⟩
        · exact hmoved ((congrFun hleft _).trans (congrFun pass.cursors _))
        · exact raised hraised
    | from_position current feeds whole living hlast =>
      have hmem := whole x hx (fun q hq => (Option.some.inj hq) ▸ hafter) (fun h => by cases h)
      obtain ⟨c, hc, rfl⟩ := List.mem_map.mp hmem
      have hremoved := runContacts_removes hstart hnodup hc hdead hmoved
      exact ⟨hremoved, fun hmirrors =>
        hremoved.noCopy (runContacts_mirrors g user .delta source w hmirrors)⟩
    | again q position expired =>
      obtain rfl := Option.some.inj position
      exact absurd expired hlasts
  · have hforgotten : Forgotten book user x.sourceId
        (w.db.getItemState (contactKey user x.sourceId)) w s :=
      ⟨rfl, ⟨x, hx, hdead⟩, p, hcursor, Or.inl hexpired⟩
    have hstays := hlater.forgotten hforgotten
    refine ⟨hstays.row, fun hmirrors => ?_⟩
    obtain ⟨hmirrors', hcalls⟩ := hlater.leaves hforgotten hmirrors
    refine ⟨hcalls, ?_⟩
    rw [hmirrors'.copies, Db.recorded_eq, Db.recorded_eq, hstays.row]

/-! An address book with one contact, which is deleted, and another one that comes when all tokens
have expired. -/

inductive Stage where
  | fresh
  | deleted
  | expired
deriving DecidableEq

def alice : SourceContact := { sourceId := "c1", sourceHash := "e1" }

def bob : SourceContact := { sourceId := "c2", sourceHash := "e2" }

def Stage.log : Stage → List SourceContact
  | .fresh => [alice]
  | .deleted => [{ alice with isDeleted := true }, alice]
  | .expired => [bob, { alice with isDeleted := true }, alice]

def personOf (c : SourceContact) : Person :=
  { resourceName := c.sourceId, etag := c.sourceHash, deleted := c.isDeleted }

def stagePage (s : Stage) (people : List SourceContact) : ConnectionsPage :=
  { connections := people.map personOf, nextSyncToken := some (positionToken s.log.length).val }

def stageServe : (r : PeopleRequest) → Stage → r.Ans × Stage
  | .contactGroups, s => (.ok [], s)
  | .connections none _, s =>
    (.ok (stagePage s ((changedSince SourceContact.sourceId s.log none).filter
      (fun c => c.isDeleted = false))), s)
  | .connections (some _) _, .expired => (.error (.http 410 "EXPIRED_SYNC_TOKEN"), .expired)
  | .connections (some t) _, s =>
    (.ok (stagePage s (changedSince SourceContact.sourceId s.log (some (position t)))), s)

theorem version_personOf {s : Stage} {c : SourceContact} (hc : c ∈ s.log) :
    (personOf c).version = c := by
  cases s <;> simp only [Stage.log, List.mem_cons, List.not_mem_nil, or_false] at hc
  · rw [hc]
    decide
  · rcases hc with rfl | rfl <;> decide
  · rcases hc with rfl | rfl | rfl <;> decide

theorem mem_log {s : Stage} {pos : Option ℕ} {c : SourceContact}
    (hc : c ∈ changedSince SourceContact.sourceId s.log pos) : c ∈ s.log :=
  List.mem_of_find?_eq_some ((mem_changedSince _ _ _).mp hc).1

/-- The pages of a listing that is one page. -/
theorem pages_of_one {syncToken : Option Token} {s t : Stage} {people : List SourceContact}
    {pages : List ConnectionsPage}
    (hserve : stageServe (.connections syncToken none) s = (.ok (stagePage s people), s))
    (h : ConnectionsChain stageServe syncToken s (some none) pages none t) :
    pages = [stagePage s people] := by
  cases h with
  | page answer rest =>
    rw [hserve] at answer
    obtain ⟨hpage, rfl⟩ := Prod.mk.inj answer
    obtain rfl := Except.ok.inj hpage
    cases rest
    rfl

theorem listed_page {s : Stage} {pos : Option ℕ} {counts : SourceContact → Prop}
    {people : List SourceContact} (hsub : ∀ c ∈ people, c ∈ s.log)
    (hfeeds : Feeds SourceContact.sourceId s.log pos people)
    (hwhole : ChangeFeed.Whole SourceContact.sourceId counts s.log pos people) :
    Listed positionToken counts s.log pos (connectionsOf [stagePage s people]) := by
  have hversions : ((connectionsOf [stagePage s people]).1.map Person.version) = people := by
    simp only [connectionsOf, List.flatMap_singleton, stagePage, List.map_map]
    exact (List.map_congr_left (fun c hc => version_personOf (hsub c hc))).trans (List.map_id _)
  refine ⟨by rwa [hversions], by rwa [hversions], fun c hc => ?_⟩
  exact Subtype.ext (DeltaFeed.truthy_eq hc).symm

def stageBook : AddressBook Stage where
  serve := stageServe
  log := Stage.log
  expired s _ := s = .expired
  tok := positionToken
  tok_injective := positionToken_injective
  stays r s := by
    cases r with
    | contactGroups => rfl
    | connections syncToken pageToken => cases syncToken <;> cases s <;> rfl
  ages r s p h := by
    subst h
    cases r with
    | contactGroups => rfl
    | connections syncToken pageToken => cases syncToken <;> rfl
  full s t pages h := by
    have hfeeds : Feeds SourceContact.sourceId s.log none _ := feeds_changedSince s.log none
    have hwhole :
        ChangeFeed.Whole SourceContact.sourceId (fun c => c.isDeleted = false) s.log none _ :=
      whole_changedSince (fun c => c.isDeleted = false) s.log none
    obtain rfl := pages_of_one rfl h
    refine ⟨listed_page (fun c hc => mem_log (List.mem_of_mem_filter hc)) ?_ ?_, ?_⟩
    · exact ⟨hfeeds.nodup.sublist (List.filter_sublist.map _),
        fun x hx => hfeeds.sound x (List.mem_of_mem_filter hx)⟩
    · exact fun x hx hpos hlive =>
        List.mem_filter.mpr ⟨hwhole x hx hpos hlive, decide_eq_true hlive⟩
    · intro person hperson
      simp only [connectionsOf, List.flatMap_singleton, stagePage] at hperson
      obtain ⟨c, hc, rfl⟩ := List.mem_map.mp hperson
      exact of_decide_eq_true (List.mem_filter.mp hc).2
  delta s t p pages h := by
    have hlisted : ∀ s : Stage, s ≠ .expired →
        stageServe (.connections (some (positionToken p)) none)
        s = (.ok (stagePage s (changedSince SourceContact.sourceId s.log (some p))), s) := by
      intro s hs
      cases s with
      | expired => exact absurd rfl hs
      | _ => simp [stageServe]
    by_cases hs : s = .expired
    · subst hs
      cases h with
      | page answer _ => cases answer
    · obtain rfl := pages_of_one (hlisted s hs) h
      exact listed_page (fun c hc => mem_log hc) (feeds_changedSince _ _) (whole_changedSince _ _ _)
  expires s t p pages text h := by
    by_cases hs : s = .expired
    · subst hs
      cases h with
      | failed answer =>
        cases answer
        rfl
      | page answer _ => cases answer
    · exfalso
      cases s with
      | expired => exact hs rfl
      | fresh | deleted =>
        cases h with
        | failed answer => cases answer
        | page answer rest =>
          obtain ⟨hpage, -⟩ := Prod.mk.inj answer
          obtain rfl := Except.ok.inj hpage
          cases rest
  refuses s t p pages hexpired h := by
    subst hexpired
    cases h with
    | page answer _ => cases answer

/-- A full pass over the first contact. -/
def firstListing : Enumeration SourceContact where
  items := [alice]
  lastCursor := some (positionToken 1)

theorem stage_passed (user : UserMapping) : Reached stageBook calmGraph user
    (runContacts calmGraph user .full (fun _ => firstListing) {}).world .fresh :=
  .passed (.start .fresh) .full (fun _ => firstListing)
    (fun since hsince => by
      obtain rfl : since = none := (Option.some.inj hsince).symm
      exact ⟨1, by rfl⟩)
    ⟨⟨[], rfl⟩, fun _ h => h⟩
    (fun _ x hx hlive hskips hash hhash => absurd hhash (by simp [Workload.applied, Db.applied,
      Db.getItemState]))

/-- A pass over the second contact, when the token of the first pass has expired. -/
def secondListing : Enumeration SourceContact where
  items := [toContact ∅ (personOf bob)]
  lastCursor := some (positionToken 3)

/-- The contact that came in the meantime is in the pass, and is not done before it. -/
theorem contacts_survive_expiry_bob :
    Fetches stageBook (some (positionToken 1)) .expired secondListing .expired ∧
      ∃ y ∈ secondListing.items, y.version = bob := by
  let user : UserMapping := ⟨"a@source", "a@dest"⟩
  have hmoves : Moves stageBook .fresh .expired :=
    ⟨⟨[bob, { alice with isDeleted := true }], rfl⟩, fun _ h => by cases h⟩
  have hreached := (stage_passed user).moved hmoves
  have hfetch : Fetches stageBook (some (positionToken 1)) .expired secondListing .expired :=
    ⟨1, by rfl⟩
  have hcases := contacts_survive_expiry hreached (positionToken 1) (by decide) secondListing
    .expired hfetch rfl bob (by decide) rfl
  refine ⟨hfetch, hcases.resolve_left ?_⟩
  rintro ⟨row, hrow, -⟩
  have hnone : (runContacts calmGraph user .full (fun _ => firstListing) {}).world.db.getItemState
      (contactKey user bob.sourceId) = none := by decide
  rw [hnone] at hrow
  cases hrow

/-- A pass over the tombstone of the first contact, from the token of the first pass. -/
def tombstoneListing : Enumeration SourceContact where
  items := [toContact ∅ (personOf { alice with isDeleted := true })]
  lastCursor := some (positionToken 2)

/-- The copy of the contact that was deleted goes with the pass that reads the tombstone. If the
token expires first it stays, whatever passes come. -/
theorem deletion_until_expiry_alice :
    let user : UserMapping := ⟨"a@source", "a@dest"⟩
    let key := contactKey user "c1"
    let w := (runContacts calmGraph user .full (fun _ => firstListing) {}).world
    let deleted := (runContacts calmGraph user .delta (fun _ => tombstoneListing) w).world
    ∃ copy, w.db.recorded key = some copy ∧
      (Removed key (some copy) w.log deleted ∧ copiesOf (replay contactEffect deleted.log) key = []) ∧
      ∀ w' s', Later stageBook calmGraph user "c1" w .expired w' s' →
        w'.db.getItemState key = w.db.getItemState key ∧
        CallsFrom (fun call => ¬ call.OnContact key (some copy)) w.log w' ∧
        copiesOf (replay contactEffect w'.log) key = [copy] := by
  intro user key w deleted
  have hmirrors : w.Mirrors contactEffect :=
    runContacts_mirrors calmGraph user .full (fun _ => firstListing) {} mirrors_empty
  have hcopy : w.db.recorded key = some ⟨"i", by decide⟩ := by decide
  let gone : SourceContact := { alice with isDeleted := true }
  have hcursor : w.db.getCursor ⟨user.sourceId, "contacts"⟩ = some (stageBook.tok 1) := by decide
  refine ⟨⟨"i", by decide⟩, hcopy, ?_, fun w' s' hlater => ?_⟩
  · have hlast : latest SourceContact.sourceId (stageBook.log .deleted) gone.sourceId =
        some gone := by decide
    have hafter : 1 < changedAt SourceContact.sourceId (stageBook.log .deleted) gone.sourceId := by
      decide
    have hfetch : Fetches stageBook (some (stageBook.tok 1)) .deleted tombstoneListing .deleted :=
      ⟨1, by rfl⟩
    have hmoved : deleted.db.getCursor ⟨user.sourceId, "contacts"⟩ ≠ some (stageBook.tok 1) := by
      decide
    have hgone := (deletion_until_expiry hcursor hlast rfl hafter).1 (fun _ => tombstoneListing)
      .deleted hfetch (fun h : Stage.deleted = .expired => nomatch h) hmoved
    rw [show w.db.recorded (contactKey user gone.sourceId) = _ from hcopy] at hgone
    exact ⟨hgone.1, hgone.2 hmirrors⟩
  · have hlast : latest SourceContact.sourceId (stageBook.log .expired) gone.sourceId =
        some gone := by decide
    have hafter : 1 < changedAt SourceContact.sourceId (stageBook.log .expired) gone.sourceId := by
      decide
    have hstays := (deletion_until_expiry hcursor hlast rfl hafter).2 rfl w' s' hlater
    rw [show w.db.recorded (contactKey user gone.sourceId) = _ from hcopy] at hstays
    exact ⟨hstays.1, (hstays.2 hmirrors).1, (hstays.2 hmirrors).2⟩

end GoogleContacts

end GwsMigrator
