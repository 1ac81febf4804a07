import GwsMigrator.ContactsSync

/-! The calls that a contacts pass makes for a contact, and those it does not make for any other. -/
namespace GwsMigrator
open Dialogue Mirror

/-- Calls were made since the log was this, all of them allowed. -/
def CallsFrom (allowed : Call → Prop) (log : Log Call.Ans) (w : World) : Prop :=
  ∃ newer, w.log = newer ++ log ∧ ∀ e ∈ newer, allowed e.call

namespace CallsFrom

variable {g : Graph} {allowed allowed' : Call → Prop} {log : Log Call.Ans} {w w' : World}

theorem refl (allowed : Call → Prop) (w : World) : CallsFrom allowed w.log w :=
  ⟨[], rfl, fun _ h => absurd h List.not_mem_nil⟩

theorem congr (h : CallsFrom allowed log w) (hlog : w'.log = w.log) : CallsFrom allowed log w' := by
  obtain ⟨newer, hnewer, hallowed⟩ := h
  exact ⟨newer, hlog.trans hnewer, hallowed⟩

theorem trans (h : CallsFrom allowed log w) (h' : CallsFrom allowed w.log w') :
    CallsFrom allowed log w' := by
  obtain ⟨newer, hnewer, hallowed⟩ := h
  obtain ⟨newer', hnewer', hallowed'⟩ := h'
  refine ⟨newer' ++ newer, ?_, fun e he => ?_⟩
  · rw [hnewer', hnewer, List.append_assoc]
  · exact (List.mem_append.mp he).elim (hallowed' e) (hallowed e)

theorem after (h : CallsFrom allowed log w) {c : Call} (hc : allowed c) :
    CallsFrom allowed log (g.after w c) := by
  refine h.trans ⟨[⟨c, g.ask w c⟩], rfl, fun e he => ?_⟩
  rw [List.mem_singleton.mp he]
  exact hc

theorem mono (h : CallsFrom allowed log w) (himp : ∀ c, allowed c → allowed' c) :
    CallsFrom allowed' log w := by
  obtain ⟨newer, hnewer, hallowed⟩ := h
  exact ⟨newer, hnewer, fun e he => himp e.call (hallowed e he)⟩

theorem suffix (h : CallsFrom allowed log w) : log <:+ w.log := by
  obtain ⟨newer, hnewer, -⟩ := h
  exact ⟨newer, hnewer.symm⟩

end CallsFrom

/-- The calls for the contact with this key: its copy is made, or the copy on record is updated or
deleted, and a photo goes to that copy or to one that was just made. -/
def Call.ForContact (k : ItemKey) (w : World) : Call → Prop
  | .createContact src .. => src = k
  | .updateContact id _ | .deleteContact id => w.db.recorded k = some id
  | .setContactPhoto id _ => w.db.recorded k = some id ∨ id ∉ issued contactEffect w.log
  | .ensureContactFolder _ | .fetchContactPhoto _ => True
  | _ => False

theorem issued_of_suffix {ε ι κ : Type} [DecidableEq ι] {effect : ε → Effect ι κ}
    {log log' : List ε} (h : log <:+ log') {i : ι} (hi : i ∈ issued effect log) :
    i ∈ issued effect log' := by
  obtain ⟨newer, rfl⟩ := h
  induction newer with
  | nil => exact hi
  | cons e newer ih =>
    rw [List.cons_append, issued]
    exact List.mem_append_right _ ih

section
variable (g : Graph) (user : UserMapping) (mode : Mode)

theorem contactKey_inj {sourceId sourceId' : String} :
    contactKey user sourceId = contactKey user sourceId' ↔ sourceId = sourceId' := by
  simp [contactKey]

theorem getContactFolder_calls (allowed : Call → Prop)
    (hfolder : ∀ name, allowed (.ensureContactFolder name)) (st : ContactsLoop) (name : String) :
    CallsFrom allowed st.world.log (getContactFolder g st name).2.world := by
  have hasked := (CallsFrom.refl allowed st.world).after (g := g) (hfolder name)
  unfold getContactFolder
  cases st.folderCache.lookup name with
  | some id => exact CallsFrom.refl _ _
  | none => cases g.ask st.world (.ensureContactFolder name) <;> exact hasked

theorem removeContact_calls (st : ContactsLoop) (c : SourceContact) :
    CallsFrom (Call.ForContact (contactKey user c.sourceId) st.world) st.world.log
      (removeContact g user st c
        (st.world.db.recorded (contactKey user c.sourceId))).world := by
  cases hr : st.world.db.recorded (contactKey user c.sourceId) with
  | none => exact CallsFrom.refl _ _
  | some id =>
    have hdeleted := (CallsFrom.refl (Call.ForContact (contactKey user c.sourceId) st.world)
      st.world).after (g := g) (show Call.ForContact _ _ (.deleteContact id) from hr)
    simp only [removeContact]
    obtain ⟨hd, -⟩ | ⟨e, hd, -⟩ := deleteContact_cases g st.world id
    all_goals
      rw [hd]
      exact hdeleted

/-- The write is to the copy on record or makes a new one. -/
theorem writeContact_calls (st : ContactsLoop) (c : SourceContact) :
    let written := writeContact g user st c
      (st.world.db.recorded (contactKey user c.sourceId))
    CallsFrom (Call.ForContact (contactKey user c.sourceId) st.world) st.world.log
        written.2.world ∧
      ∀ id, written.1 = .ok id → st.world.db.recorded (contactKey user c.sourceId) = some id ∨
        id ∉ issued contactEffect st.world.log := by
  have hrefl := CallsFrom.refl (Call.ForContact (contactKey user c.sourceId) st.world) st.world
  cases hr : st.world.db.recorded (contactKey user c.sourceId) with
  | some id =>
    have hupdated := hrefl.after (g := g)
      (show Call.ForContact _ _ (.updateContact id c.graphBody) from hr)
    simp only [writeContact]
    cases g.ask st.world (.updateContact id c.graphBody) with
    | ok r => exact ⟨hupdated, fun id' h => Or.inl (congrArg some (Except.ok.inj h))⟩
    | error e => exact ⟨hupdated, fun id' h => by cases h⟩
  | none =>
    have hfolder := getContactFolder_calls g (Call.ForContact (contactKey user c.sourceId) st.world)
      (fun _ => trivial) st c.folderName
    simp only [writeContact]
    rcases hf : getContactFolder g st c.folderName with ⟨e | folder, st₁⟩ <;> rw [hf] at hfolder
    · exact ⟨hfolder, fun id h => by cases h⟩
    · have hcreated := hfolder.after (g := g) (show Call.ForContact _ _
        (.createContact (contactKey user c.sourceId) folder c.graphBody) from rfl)
      simp only
      cases hask : g.ask st₁.world
          (.createContact (contactKey user c.sourceId) folder c.graphBody) with
      | error e => exact ⟨hcreated, fun id h => by cases h⟩
      | ok id =>
        refine ⟨hcreated, fun id' h => Or.inr (fun hissued => ?_)⟩
        obtain rfl := Except.ok.inj h
        -- the new id was never given out, also not before the folder was asked for
        exact g.createContact_fresh _ _ _ _ id hask (issued_of_suffix hfolder.suffix hissued)

theorem copyPhoto_calls {allowed : Call → Prop} (w : World) (c : SourceContact) (id : Token)
    (hfetch : allowed (.fetchContactPhoto c)) (hset : ∀ photo, allowed (.setContactPhoto id photo)) :
    CallsFrom allowed w.log (copyPhoto g w c id) := by
  have hfetched := (CallsFrom.refl allowed w).after (g := g) hfetch
  unfold copyPhoto
  split
  · exact CallsFrom.refl _ _
  · simp only
    split
    · split
      · exact hfetched
      · exact hfetched.after (hset _)
    · exact hfetched

/-- All calls of one round of the loop are for its contact. -/
theorem processContact_calls (st : ContactsLoop) (c : SourceContact) :
    CallsFrom (Call.ForContact (contactKey user c.sourceId) st.world) st.world.log
      (processContact g user mode st c).world := by
  have hr := recorded_of_getItemState (w := st.world) (k := contactKey user c.sourceId) rfl
  simp only [processContact, ← hr]
  split
  · exact removeContact_calls g user st c
  · split
    · exact CallsFrom.refl _ _
    · have hwrite := writeContact_calls g user st c
      simp only [migrateContact, ← hr]
      rcases hw : writeContact g user st c (st.world.db.recorded (contactKey user c.sourceId))
        with ⟨e | id, st₁⟩ <;> rw [hw] at hwrite
      · exact hwrite.1
      · exact hwrite.1.trans (copyPhoto_calls g
          (st₁.world.upsertItem (contactKey user c.sourceId)
            { destId := some id, status := .done, sourceHash := orNone c.sourceHash }) c id trivial
          (fun photo => hwrite.2 id rfl))

end

/-- The calls that make a copy for this contact, or that touch the copy it has. -/
def Call.OnContact (k : ItemKey) (copy : Option Token) : Call → Prop
  | .createContact src .. => src = k
  | .updateContact id _ | .deleteContact id | .setContactPhoto id _ => copy = some id
  | _ => False

/-- No two contacts have one copy, and none has a new one, so calls for another contact leave the
copy of this one alone. -/
theorem Call.ForContact.not_on {w : World} (hmirrors : w.Mirrors contactEffect) {k k' : ItemKey}
    (hne : k' ≠ k) {c : Call} (h : c.ForContact k' w) : ¬ c.OnContact k (w.db.recorded k) := by
  have hlive : ∀ {k id}, w.db.recorded k = some id → (id, k) ∈ replay contactEffect w.log := by
    intro k id hid
    rw [← mem_copiesOf, hmirrors.copies k, hid]
    exact List.mem_singleton.mpr rfl
  have hother : ∀ {id}, w.db.recorded k' = some id → w.db.recorded k ≠ some id := by
    intro id hid hid'
    have hsame := List.inj_on_of_nodup_map hmirrors.nodup (hlive hid) (hlive hid') rfl
    exact hne (congrArg Prod.snd hsame)
  cases c with
  | createContact src folder body => exact fun hsrc => hne (h.symm.trans hsrc)
  | updateContact id body => exact hother h
  | deleteContact id => exact hother h
  | setContactPhoto id data =>
    rcases h with hid | hnew
    · exact hother hid
    · exact fun hid => hnew (replay_subset_issued contactEffect w.log _ (hlive hid))
  | _ => exact fun hon => hon

section
variable (g : Graph) (user : UserMapping) (mode : Mode)

/-- While the store mirrors the destination, a round for another contact makes no call on this
one. -/
theorem processContact_leaves (st : ContactsLoop) (c : SourceContact)
    (hmirrors : st.world.Mirrors contactEffect) {k : ItemKey}
    (hne : contactKey user c.sourceId ≠ k) :
    CallsFrom (fun call => ¬ call.OnContact k (st.world.db.recorded k)) st.world.log
      (processContact g user mode st c).world :=
  (processContact_calls g user mode st c).mono (fun _ h => h.not_on hmirrors hne)

theorem startContacts_calls (allowed : Call → Prop) (huser : allowed (.getUser user.destId))
    (hfolder : ∀ name, allowed (.ensureContactFolder name)) (w : World) :
    CallsFrom allowed w.log (startContacts g user w).2.world := by
  have hasked := (CallsFrom.refl allowed w).after (g := g) huser
  have hopened := hasked.trans (getContactFolder_calls g allowed hfolder
    { world := g.after w (.getUser user.destId) } "Imported Contacts")
  simp only [startContacts]
  cases g.ask w (.getUser user.destId) with
  | error e => exact hasked
  | ok _ =>
    simp only
    rcases hf : getContactFolder g { world := g.after w (.getUser user.destId) }
      "Imported Contacts" with ⟨e | folder, st⟩ <;> rw [hf] at hopened <;> exact hopened

/-- A whole pass makes no call on a contact that its feed does not yield. -/
theorem runContacts_leaves (source : Option Token → Enumeration SourceContact) (w : World)
    (hmirrors : w.Mirrors contactEffect) {id : String}
    (hnot : ∀ since, startFrom mode (w.db.getCursor ⟨user.sourceId, "contacts"⟩) = some since →
      id ∉ (source since).items.map SourceContact.sourceId) :
    CallsFrom (fun call => ¬ call.OnContact (contactKey user id)
        (w.db.recorded (contactKey user id))) w.log
      (runContacts g user mode source w).world := by
  set k := contactKey user id
  have hstart := startContacts_mirrors g user w hmirrors
  have hsame := startContacts_same g user w
  have hbegun := startContacts_calls g user
    (fun call => ¬ call.OnContact k (w.db.recorded k)) (fun h => h) (fun _ h => h) w
  simp only [runContacts]
  cases hsince : startFrom mode (w.db.getCursor ⟨user.sourceId, "contacts"⟩) with
  | none => exact CallsFrom.refl _ _
  | some since =>
    rcases hst : startContacts g user w with ⟨e | _, st⟩ <;> rw [hst] at hstart hsame hbegun
    · exact hbegun
    · -- the rounds keep the row of this contact, so that its copy stays the same
      have hloop := List.foldlRecOn (source since).items (processContact g user mode)
        (motive := fun st' : ContactsLoop => st'.world.Mirrors contactEffect ∧
          st'.world.db.getItemState k = w.db.getItemState k ∧
          CallsFrom (fun call => ¬ call.OnContact k (w.db.recorded k)) w.log st'.world)
        (b := st) ⟨hstart, congrFun hsame.rows k, hbegun⟩
        (fun st' hst c hc => by
          obtain ⟨hm, hrow, hcalls⟩ := hst
          have hne : contactKey user c.sourceId ≠ k := by
            intro heq
            have hid : c.sourceId = id := (contactKey_inj user).mp heq
            exact hnot since hsince (hid ▸ List.mem_map_of_mem hc)
          have hrecorded : st'.world.db.recorded k = w.db.recorded k := by
            rw [Db.recorded_eq, Db.recorded_eq, hrow]
          have hround := processContact_leaves g user mode st' c hm hne
          rw [hrecorded] at hround
          exact ⟨processContact_mirrors g user mode st' c hm,
            ((processContact_rowStep g user mode st' c).rows k hne.symm).trans hrow,
            hcalls.trans hround⟩)
      simp only [migrateContacts]
      split
      · exact hloop.2.2
      · exact hloop.2.2.congr (advanceCursor_log ..)

end

end GwsMigrator
