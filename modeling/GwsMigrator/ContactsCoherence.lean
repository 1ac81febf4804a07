import GwsMigrator.CoherentWorlds
import GwsMigrator.ContactsJob

/-! Over any history of contacts passes, the state store and the destination agree on
which contacts are migrated and under which id. -/
namespace GwsMigrator
open Dialogue Mirror

section
variable (g : Graph) (user : UserMapping) (mode : Mode)

theorem getContactFolder_mirrors (st : ContactsLoop) (name : String)
    (h : st.world.Mirrors contactEffect) :
    (getContactFolder g st name).2.world.Mirrors contactEffect := by
  have hafter : (g.after st.world (.ensureContactFolder name)).Mirrors contactEffect :=
    h.after_keep rfl
  unfold getContactFolder
  cases st.folderCache.lookup name with
  | some id => exact h
  | none => cases g.ask st.world (.ensureContactFolder name) <;> exact hafter

theorem getContactFolder_recorded (st : ContactsLoop) (name : String) :
    (getContactFolder g st name).2.world.db.recorded = st.world.db.recorded := by
  unfold getContactFolder
  cases st.folderCache.lookup name with
  | some id => rfl
  | none => cases g.ask st.world (.ensureContactFolder name) <;> rfl

/-- What a delete can do: it succeeded and the contact is gone, or it changed nothing. -/
theorem deleteContact_cases (w : World) (id : Token) :
    (deleteContact g w id = (.ok (), g.after w (.deleteContact id)) ∧
      contactEffect ⟨.deleteContact id, g.ask w (.deleteContact id)⟩ = .delete id) ∨
    (∃ e, deleteContact g w id = (.error e, g.after w (.deleteContact id)) ∧
      contactEffect ⟨.deleteContact id, g.ask w (.deleteContact id)⟩ = .keep) := by
  unfold deleteContact
  cases hans : g.ask w (.deleteContact id) with
  | ok r => exact Or.inl ⟨rfl, rfl⟩
  | error e =>
    cases e with
    | other text => exact Or.inr ⟨_, rfl, rfl⟩
    -- a 404 counts as deleted, on both sides
    | http status text =>
      by_cases hs : status = 404
      · subst hs
        exact Or.inl ⟨rfl, rfl⟩
      · exact Or.inr ⟨.http status text, by simp [hs], by simp [contactEffect, hs]⟩

theorem removeContact_mirrors (st : ContactsLoop) (c : SourceContact)
    (h : st.world.Mirrors contactEffect) :
    (removeContact g user st c (st.world.db.recorded (contactKey user c.sourceId))).world.Mirrors
      contactEffect := by
  cases hr : st.world.db.recorded (contactKey user c.sourceId) with
  | none => exact h.upsert_same hr.symm
  | some id =>
    simp only [removeContact]
    obtain ⟨hd, heff⟩ | ⟨e, hd, heff⟩ := deleteContact_cases g st.world id
    · rw [hd]
      exact h.delete_upsert hr heff rfl
    · rw [hd]
      exact (h.after_keep heff).upsert_same hr.symm

theorem copyPhoto_mirrors (w : World) (c : SourceContact) (id : Token)
    (h : w.Mirrors contactEffect) : (copyPhoto g w c id).Mirrors contactEffect := by
  have hfetch : (g.after w (.fetchContactPhoto c)).Mirrors contactEffect := h.after_keep rfl
  unfold copyPhoto
  by_cases href : c.photoRef = ""
  · rw [if_pos href]
    exact h
  · rw [if_neg href]
    cases g.ask w (.fetchContactPhoto c) with
    | error e => exact hfetch
    | ok photo =>
      cases photo with
      | none => exact hfetch
      | some data =>
        by_cases hdata : data = []
        · simpa [hdata] using hfetch
        · simpa [hdata] using hfetch.after_keep rfl

/-- After a write the recorded copy is the one written to: the old one, or a fresh one
that the row does not name yet. -/
theorem writeContact_mirrors (st : ContactsLoop) (c : SourceContact) (values : Token → ItemValues)
    (hvalues : ∀ id, (values id).destId = some id) (h : st.world.Mirrors contactEffect) :
    match writeContact g user st c (st.world.db.recorded (contactKey user c.sourceId)) with
    | (.ok id, st') =>
      (st'.world.upsertItem (contactKey user c.sourceId) (values id)).Mirrors contactEffect
    | (.error _, st') => st'.world.Mirrors contactEffect ∧
        st'.world.db.recorded = st.world.db.recorded := by
  -- an update keeps the id whatever is answered, a create names a fresh one
  cases hr : st.world.db.recorded (contactKey user c.sourceId) with
  | some id =>
    have hafter : (g.after st.world (.updateContact id c.graphBody)).Mirrors contactEffect :=
      h.after_keep rfl
    simp only [writeContact]
    cases g.ask st.world (.updateContact id c.graphBody) with
    | ok r => exact hafter.upsert_same ((hvalues id).trans hr.symm)
    | error e => exact ⟨hafter, rfl⟩
  | none =>
    have hf := getContactFolder_mirrors g st c.folderName h
    have hrec := getContactFolder_recorded g st c.folderName
    simp only [writeContact]
    rcases hfolder : getContactFolder g st c.folderName with ⟨e | folder, st₁⟩ <;>
      rw [hfolder] at hf hrec
    · exact ⟨hf, hrec⟩
    · have hnone : st₁.world.db.recorded (contactKey user c.sourceId) = none := by
        rw [hrec, hr]
      cases hans : g.ask st₁.world
          (.createContact (contactKey user c.sourceId) folder c.graphBody) with
      | ok id =>
        have hfresh := g.createContact_fresh _ _ _ _ id hans
        simp only [hans]
        exact World.Mirrors.create_upsert hf hnone (by rw [hans]; rfl) hfresh (hvalues id)
      | error e =>
        simp only [hans]
        exact ⟨World.Mirrors.after_keep hf (by rw [hans]; rfl), hrec⟩

theorem migrateContact_mirrors (st : ContactsLoop) (c : SourceContact)
    (h : st.world.Mirrors contactEffect) :
    (migrateContact g user st c
      (st.world.db.getItemState (contactKey user c.sourceId))).world.Mirrors contactEffect := by
  have hw := writeContact_mirrors g user st c
    (fun id => { destId := some id, status := .done, sourceHash := orNone c.sourceHash })
    (fun _ => rfl) h
  have hr := recorded_of_getItemState (w := st.world) (k := contactKey user c.sourceId) rfl
  simp only [migrateContact, ← hr]
  rcases hwrite : writeContact g user st c (st.world.db.recorded (contactKey user c.sourceId))
    with ⟨e | id, st'⟩ <;> rw [hwrite] at hw
  -- the failure upsert passes the id on, so it forgets no copy
  · exact hw.1.upsert_same (by rw [hw.2])
  · exact copyPhoto_mirrors g _ c id hw

/-- Every branch of the loop body keeps the two stores coherent. -/
theorem processContact_mirrors (st : ContactsLoop) (c : SourceContact)
    (h : st.world.Mirrors contactEffect) :
    (processContact g user mode st c).world.Mirrors contactEffect := by
  have hr := recorded_of_getItemState (w := st.world) (k := contactKey user c.sourceId) rfl
  simp only [processContact]
  by_cases hdel : c.isDeleted = true
  · rw [if_pos hdel, ← hr]
    exact removeContact_mirrors g user st c h
  · rw [if_neg hdel]
    split
    · exact h
    · exact migrateContact_mirrors g user st c h

theorem startContacts_mirrors (w : World) (h : w.Mirrors contactEffect) :
    (startContacts g user w).2.world.Mirrors contactEffect := by
  have huser : (g.after w (.getUser user.destId)).Mirrors contactEffect := h.after_keep rfl
  have hfolder := getContactFolder_mirrors g
    { world := g.after w (.getUser user.destId) } "Imported Contacts" huser
  simp only [startContacts]
  cases g.ask w (.getUser user.destId) with
  | error e => exact huser
  | ok _ =>
    simp only
    rcases hf : getContactFolder g { world := g.after w (.getUser user.destId) }
      "Imported Contacts" with ⟨e | folder, st⟩ <;> simpa only [hf] using hfolder

theorem migrateContacts_mirrors (feed : Enumeration SourceContact) (st : ContactsLoop)
    (h : st.world.Mirrors contactEffect) :
    (migrateContacts g user mode feed st).world.Mirrors contactEffect := by
  have hloop : (feed.items.foldl (processContact g user mode) st).world.Mirrors contactEffect :=
    List.foldlRecOn feed.items (processContact g user mode)
      (motive := fun st => st.world.Mirrors contactEffect) h
      (fun st' hst c _ => processContact_mirrors g user mode st' c hst)
  simp only [migrateContacts]
  by_cases hraised : feed.raised.isSome = true
  · rw [if_pos hraised]
    exact hloop
  · rw [if_neg hraised]
    exact World.Mirrors.advance hloop _ _ _

theorem runContacts_mirrors (source : Option Token → Enumeration SourceContact) (w : World)
    (h : w.Mirrors contactEffect) :
    (runContacts g user mode source w).world.Mirrors contactEffect := by
  have hstart := startContacts_mirrors g user w h
  simp only [runContacts]
  cases startFrom mode (w.db.getCursor ⟨user.sourceId, "contacts"⟩) with
  | none => exact h
  | some since =>
    rcases hst : startContacts g user w with ⟨e | _, st⟩
    · simpa only [hst] using hstart
    · rw [hst] at hstart
      exact migrateContacts_mirrors g user mode (source since) st hstart

end

/-- One pass of a history: its mode and what the source yields from each cursor. -/
structure ContactsPass where
  mode : Mode
  source : Option Token → Enumeration SourceContact

/-- The world after a history of contacts passes, from an empty state store. -/
def contactsHistory (g : Graph) (user : UserMapping) (history : List ContactsPass) : World :=
  history.foldl (fun w p => (runContacts g user p.mode p.source w).world) {}

/-- Contacts and rows agree after every history. An enumeration that raises ends its pass
after any number of items, so this is about the states inside a pass as well. -/
theorem contacts_coherent (g : Graph) (user : UserMapping) (history : List ContactsPass)
    (sourceId : String) :
    (contactsHistory g user history).Names contactEffect (contactKey user sourceId) := by
  have hw : (contactsHistory g user history).Mirrors contactEffect :=
    List.foldlRecOn history _ mirrors_empty
      (fun w' hw p _ => runContacts_mirrors g user p.mode p.source w' hw)
  exact hw.names _

end GwsMigrator
