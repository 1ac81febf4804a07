import GwsMigrator.ContactsCoherence
import GwsMigrator.SyncedJobs

/-! A contacts pass against the change log of the contacts. -/
namespace GwsMigrator
open ChangeFeed

/-- The contacts of a user. A tombstone is the last version of a deleted one. -/
def contacts : Workload SourceContact where
  name := "contacts"
  sourceId := SourceContact.sourceId
  marker c := orNone c.sourceHash
  live c := c.isDeleted = false
  skipsDone _ := True

section
variable (g : Graph) (user : UserMapping) (mode : Mode)

theorem getContactFolder_same (st : ContactsLoop) (name : String) :
    SameStore st.world.db (getContactFolder g st name).2.world.db ∧
      (getContactFolder g st name).2.failures = st.failures := by
  unfold getContactFolder
  cases st.folderCache.lookup name with
  | some id => exact ⟨SameStore.refl _, rfl⟩
  | none =>
    have hcall := SameStore.after g st.world (.ensureContactFolder name)
    cases g.ask st.world (.ensureContactFolder name) <;> exact ⟨hcall, rfl⟩

theorem writeContact_same (st : ContactsLoop) (c : SourceContact) (destExisting : Option Token) :
    SameStore st.world.db (writeContact g user st c destExisting).2.world.db ∧
      (writeContact g user st c destExisting).2.failures = st.failures := by
  cases destExisting with
  | some id =>
    have hcall := SameStore.after g st.world (.updateContact id c.graphBody)
    simp only [writeContact]
    cases g.ask st.world (.updateContact id c.graphBody) <;> exact ⟨hcall, rfl⟩
  | none =>
    have hfolder := getContactFolder_same g st c.folderName
    simp only [writeContact]
    rcases hf : getContactFolder g st c.folderName with ⟨e | folder, st₁⟩ <;> rw [hf] at hfolder
    · exact hfolder
    · obtain ⟨hsame, hn⟩ := hfolder
      have hcall := SameStore.after g st₁.world
        (.createContact (contactKey user c.sourceId) folder c.graphBody)
      cases hans : g.ask st₁.world
          (.createContact (contactKey user c.sourceId) folder c.graphBody) <;>
      · simp only [hans]
        exact ⟨hsame.trans hcall, hn⟩

theorem copyPhoto_same (w : World) (c : SourceContact) (id : Token) :
    SameStore w.db (copyPhoto g w c id).db := by
  have hfetch := SameStore.after g w (.fetchContactPhoto c)
  unfold copyPhoto
  by_cases href : c.photoRef = ""
  · rw [if_pos href]
    exact SameStore.refl _
  · rw [if_neg href]
    rcases g.ask w (.fetchContactPhoto c) with e | (_ | photo)
    · exact hfetch
    · exact hfetch
    · by_cases hphoto : photo = []
      · simpa [hphoto] using hfetch
      · simpa [hphoto] using hfetch.trans (SameStore.after g _ (.setContactPhoto id photo))

/-- A written contact has its version in its row, any other counts as a failure. -/
theorem migrateContact_row (st : ContactsLoop) (c : SourceContact) (state : Option ItemValues) :
    ∃ v, RowWritten (contacts.key user c.sourceId) v st.world.db
        (migrateContact g user st c state).world.db ∧
      ((v.status = .done ∧ v.sourceHash = contacts.marker c ∧
          (migrateContact g user st c state).failures = st.failures) ∨
        (migrateContact g user st c state).failures = st.failures + 1) := by
  obtain ⟨hsame, hn⟩ := writeContact_same g user st c (state.bind (·.destId))
  simp only [migrateContact]
  rcases hw : writeContact g user st c (state.bind (·.destId)) with ⟨e | id, st₁⟩ <;>
    rw [hw] at hsame hn
  · refine ⟨_, hsame.upsert _ _, Or.inr ?_⟩
    rw [← hn]
  · -- the photo comes after the row and cannot undo it
    let row : ItemValues :=
      { destId := some id, status := .done, sourceHash := orNone c.sourceHash }
    have hphoto := copyPhoto_same g (st₁.world.upsertItem (contacts.key user c.sourceId) row) c id
    exact ⟨row, (hsame.upsert _ row).then_same hphoto, Or.inl ⟨rfl, rfl, hn⟩⟩

theorem removeContact_rowStep (st : ContactsLoop) (c : SourceContact)
    (destExisting : Option Token) :
    RowStep (contacts.key user c.sourceId) st.world.db
      (removeContact g user st c destExisting).world.db st.failures
      (removeContact g user st c destExisting).failures := by
  cases destExisting with
  | none => exact ((SameStore.refl _).upsert _ _).rowStep (Nat.le_refl _)
  | some id =>
    have hcall := SameStore.after g st.world (.deleteContact id)
    simp only [removeContact]
    obtain ⟨hd, -⟩ | ⟨e, hd, -⟩ := deleteContact_cases g st.world id <;> rw [hd]
    · exact (hcall.upsert _ _).rowStep (Nat.le_refl _)
    · exact (hcall.upsert _ _).rowStep (Nat.le_succ _)

theorem processContact_rowStep (st : ContactsLoop) (c : SourceContact) :
    RowStep (contacts.key user c.sourceId) st.world.db (processContact g user mode st c).world.db
      st.failures (processContact g user mode st c).failures := by
  simp only [processContact]
  by_cases hdel : c.isDeleted = true
  · rw [if_pos hdel]
    exact removeContact_rowStep g user st c _
  · rw [if_neg hdel]
    split
    · exact (SameStore.refl _).rowStep _ _
    · obtain ⟨v, hrow, ⟨-, -, hn⟩ | hn⟩ := migrateContact_row g user st c
        (st.world.db.getItemState (contactKey user c.sourceId))
      · exact hrow.rowStep (by omega)
      · exact hrow.rowStep (by omega)

theorem processContact_settles (st : ContactsLoop) (c : SourceContact)
    (hlive : contacts.live c) :
    Settles contacts user (mode = .full) c st.world.db (processContact g user mode st c).world.db
      st.failures (processContact g user mode st c).failures := by
  have hlive' : c.isDeleted ≠ true := by
    intro hdel
    have hnot : c.isDeleted = false := hlive
    rw [hdel] at hnot
    exact absurd hnot (by simp)
  simp only [processContact]
  rw [if_neg hlive']
  by_cases hsettled : contactSettled mode c
      (st.world.db.getItemState (contactKey user c.sourceId)) = true
  · rw [if_pos hsettled]
    obtain ⟨s, hs, hcond⟩ := (Option.any_eq_true _ _).mp hsettled
    obtain ⟨hdone, hmode⟩ := of_decide_eq_true hcond
    have happlied : contacts.applied user st.world.db c.sourceId = some s.sourceHash :=
      Db.applied_eq_some.mpr ⟨s, hs, hdone, rfl⟩
    cases mode with
    | full => exact .of_skipped rfl trivial (Option.isSome_of_eq_some happlied) rfl
    | delta =>
      -- the row is done with the hash of this version
      obtain ⟨hne, hhash⟩ := hmode.resolve_left (by simp)
      refine .of_open (fun hfull => absurd hfull (by simp)) (Or.inr (happlied.trans ?_))
      rw [hhash]
      simp [contacts, orNone, hne]
  · rw [if_neg hsettled]
    refine .of_open (fun hfull => ?_) ?_
    · -- a full pass does not get here with a done row
      rw [← Option.not_isSome_iff_eq_none]
      intro hdone
      obtain ⟨hash, hhash⟩ := Option.isSome_iff_exists.mp hdone
      obtain ⟨s, hs, hdone, -⟩ := Db.applied_eq_some.mp hhash
      refine absurd ((Option.any_eq_true _ _).mpr ⟨s, hs, decide_eq_true ⟨hdone, Or.inl ?_⟩⟩)
        hsettled
      rw [hfull]
      simp
    · obtain ⟨v, hrow, ⟨hdone, hhash, -⟩ | hn⟩ := migrateContact_row g user st c
        (st.world.db.getItemState (contactKey user c.sourceId))
      · refine Or.inr ?_
        have happlied := hrow.applied hdone
        rw [hhash] at happlied
        exact happlied
      · exact Or.inl (by omega)

theorem startContacts_same (w : World) :
    SameStore w.db (startContacts g user w).2.world.db := by
  have huser := SameStore.after g w (.getUser user.destId)
  have hfolder := (getContactFolder_same g
    { world := g.after w (.getUser user.destId) } "Imported Contacts").1
  simp only [startContacts]
  cases g.ask w (.getUser user.destId) with
  | error e => exact huser
  | ok _ =>
    simp only
    rcases hf : getContactFolder g { world := g.after w (.getUser user.destId) }
      "Imported Contacts" with ⟨e | folder, st⟩ <;> rw [hf] at hfolder <;>
    exact huser.trans hfolder

variable {g user mode}

/-- A contacts pass over a feed without repetitions settles it. -/
theorem runContacts_ran_of_nodup {source : Option Token → Enumeration SourceContact} {w : World}
    (hnodup : ∀ since, startFrom mode (w.db.getCursor ⟨user.sourceId, "contacts"⟩) = some since →
      ((source since).items.map SourceContact.sourceId).Nodup) :
    Ran contacts user mode source w.db (runContacts g user mode source w).world.db := by
  simp only [runContacts]
  cases hstart : startFrom mode (w.db.getCursor ⟨user.sourceId, "contacts"⟩) with
  | none => exact .idle _ (SameStore.refl _)
  | some since =>
    have hsame := startContacts_same g user w
    rcases hst : startContacts g user w with ⟨e | _, st⟩ <;> rw [hst] at hsame
    · exact .idle _ hsame
    · have hpass := Passed.of_steps contacts user (mode = .full)
        (fun st : ContactsLoop => st.world.db) ContactsLoop.failures (processContact g user mode)
        (hnodup since hstart) st
        (fun st' c _ => processContact_rowStep g user mode st' c)
        (fun st' c _ hlive => processContact_settles g user mode st' c hlive)
      simp only at hsame
      rw [← hsame.cursors] at hstart
      simp only [migrateContacts]
      -- a feed that raised leaves its rows behind, but saves no cursor
      by_cases hraised : (source since).raised.isSome = true
      · rw [if_pos hraised]
        exact Ran.after hsame (.passed since _ _ _ hstart hpass rfl (Or.inl rfl))
      · rw [if_neg hraised]
        exact Ran.of_advance hsame hstart hpass (fun _ => by simpa using hraised)

/-- A contacts pass reads its feed and settles it. -/
theorem runContacts_ran {tok : ℕ → Token} {log : List SourceContact}
    {source : Option Token → Enumeration SourceContact} {w : World}
    (hreads : Reads contacts tok log source)
    (hsynced : Synced contacts user tok log w.db) :
    Ran contacts user mode source w.db (runContacts g user mode source w).world.db :=
  runContacts_ran_of_nodup (fun _ hstart => hsynced.feeds hreads hstart)

end

end GwsMigrator
