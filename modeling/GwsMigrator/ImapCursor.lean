import GwsMigrator.ImapSource

/-! What the IMAP cursor promises: every message below the recorded UIDNEXT of a folder was
yielded under the recorded UIDVALIDITY, unless UID SEARCH was refused on the way. -/
namespace GwsMigrator
open Dialogue

theorem Mailbox.Grows.refl (box : Mailbox) : box.Grows box :=
  ⟨rfl, le_refl _, fun _ hu => Or.inl hu⟩

theorem Mailbox.Grows.trans {a b c : Mailbox} (h : a.Grows b) (h' : b.Grows c) : a.Grows c := by
  refine ⟨h'.uidvalidity.trans h.uidvalidity, h.uidnext.trans h'.uidnext, fun u hu => ?_⟩
  rcases h'.uids u hu with hb | hb
  · exact h.uids u hb
  · exact Or.inr (h.uidnext.trans hb)

/-- A message below an old UIDNEXT was there at that time. -/
theorem Mailbox.Grows.mem_of_lt {a b : Mailbox} (h : a.Grows b) {u n : ℕ} (hu : u ∈ b.uids)
    (hn : n ≤ a.uidnext) (hlt : u < n) : u ∈ a.uids := by
  rcases h.uids u hu with ha | ha
  · exact ha
  · omega

theorem ImapServer.grows_of_suffix (server : ImapServer) {older log : ImapLog}
    (h : older <:+ log) (raw : String) : (server.boxes older raw).Grows (server.boxes log raw) := by
  obtain ⟨newer, rfl⟩ := h
  induction newer with
  | nil => exact Mailbox.Grows.refl _
  | cons e newer ih => exact ih.trans (server.grows (newer ++ older) e raw)

def WasYielded (yielded : List Yielded) (raw : String) (uidvalidity uid : ℕ) : Prop :=
  ∃ message, (⟨raw, uidvalidity, uid, message⟩ : Yielded) ∈ yielded

/-- If the entry of a folder has its present UIDVALIDITY, then all messages below the recorded
UIDNEXT were yielded under it. -/
def EntryCovers (box : Mailbox) (yielded : List Yielded) (raw : String) (c : FolderCursor) : Prop :=
  c.uidvalidity = box.uidvalidity → c.uidnext ≤ box.uidnext ∧
    ∀ u ∈ box.uids, u < c.uidnext → WasYielded yielded raw c.uidvalidity u

def Covers (boxes : String → Mailbox) (yielded : List Yielded) (cursor : ImapCursor) : Prop :=
  ∀ raw c, cursor.lookup raw = some c → EntryCovers (boxes raw) yielded raw c

/-- Every UID SEARCH is answered OK that has a message to find below the recorded UIDNEXT. -/
def ImapServer.Searches (server : ImapServer) (log : ImapLog) : Prop :=
  ∀ older raw start uidnext, ⟨.search raw start uidnext, .ok .refused⟩ :: older <:+ log →
    ∀ u ∈ (server.boxes older raw).uids, start ≤ u → uidnext ≤ u

def refusedSearch : Event ImapCall.Ans → Bool
  | ⟨.search .., .ok .refused⟩ => true
  | _ => false

/-- In particular if none is refused. -/
theorem ImapServer.searches_of_answered (server : ImapServer) {log : ImapLog}
    (h : ∀ e ∈ log, refusedSearch e = false) : server.Searches log := by
  intro older raw start uidnext hsuffix
  have hmem := h _ (hsuffix.subset List.mem_cons_self)
  exact absurd hmem (by simp [refusedSearch])

theorem EntryCovers.grows {box box' : Mailbox} {yielded yielded' : List Yielded} {raw : String}
    {c : FolderCursor} (h : EntryCovers box yielded raw c) (hbox : box.Grows box')
    (hsub : yielded ⊆ yielded') : EntryCovers box' yielded' raw c := by
  intro hv
  obtain ⟨hnext, hall⟩ := h (hv.trans hbox.uidvalidity)
  refine ⟨hnext.trans hbox.uidnext, fun u hu hlt => ?_⟩
  obtain ⟨message, hmem⟩ := hall u (hbox.mem_of_lt hu hnext hlt) hlt
  exact ⟨message, hsub hmem⟩

theorem ImapServer.Searches.suffix {server : ImapServer} {older log : ImapLog}
    (h : server.Searches log) (hlog : older <:+ log) : server.Searches older :=
  fun older' raw start uidnext hrefused =>
    h older' raw start uidnext (hrefused.trans hlog)

section pass
variable {server : ImapServer} {messageIdOf : Bytes → Option String}

/-- `st'` is a later moment of the same pass. -/
structure ImapScan.Extends (st st' : ImapScan) : Prop where
  log : st.log <:+ st'.log
  yielded : st.yielded ⊆ st'.yielded

theorem ImapScan.Extends.refl (st : ImapScan) : st.Extends st :=
  ⟨List.suffix_rfl, List.Subset.refl _⟩

theorem ImapScan.Extends.trans {a b c : ImapScan} (h : a.Extends b) (h' : b.Extends c) :
    a.Extends c := ⟨h.log.trans h'.log, List.Subset.trans h.yielded h'.yielded⟩

variable (server) in
theorem ImapScan.extends_after (st : ImapScan) (c : ImapCall) : st.Extends (st.after server c) :=
  ⟨List.suffix_cons _ _, List.Subset.refl _⟩

variable (server messageIdOf) in
theorem fetchUid_extends (folder : ImapFolder) (uidvalidity start : ℕ) (st : ImapScan) (uid : ℕ) :
    st.Extends (fetchUid server messageIdOf folder uidvalidity start st uid) := by
  simp only [fetchUid]
  by_cases hraised : st.raised.isSome = true
  · rw [if_pos hraised]
    exact ImapScan.Extends.refl st
  · rw [if_neg hraised]
    by_cases hlt : uid < start
    · rw [if_pos hlt]
      exact ImapScan.Extends.refl st
    · rw [if_neg hlt]
      cases fetchMessage messageIdOf folder uid uidvalidity
          (st.ask server (.fetch folder.rawName uid)) with
      | ok message => exact ⟨List.suffix_cons _ _, List.subset_append_left _ _⟩
      | error e => exact ⟨List.suffix_cons _ _, List.Subset.refl _⟩

theorem fetchUid_cursor (folder : ImapFolder) (uidvalidity start : ℕ) (st : ImapScan) (uid : ℕ) :
    (fetchUid server messageIdOf folder uidvalidity start st uid).cursor = st.cursor := by
  simp only [fetchUid]
  by_cases hraised : st.raised.isSome = true
  · rw [if_pos hraised]
  · rw [if_neg hraised]
    by_cases hlt : uid < start
    · rw [if_pos hlt]
    · rw [if_neg hlt]
      cases fetchMessage messageIdOf folder uid uidvalidity
          (st.ask server (.fetch folder.rawName uid)) <;> rfl

/-- A UID from `start` on is fetched and yielded, unless the pass raises. -/
theorem fetchUid_yields (folder : ImapFolder) (uidvalidity start : ℕ) (st : ImapScan) (uid : ℕ)
    (hle : start ≤ uid)
    (hend : (fetchUid server messageIdOf folder uidvalidity start st uid).raised = none) :
    WasYielded (fetchUid server messageIdOf folder uidvalidity start st uid).yielded
      folder.rawName uidvalidity uid := by
  simp only [fetchUid] at hend ⊢
  by_cases hraised : st.raised.isSome = true
  · rw [if_pos hraised] at hend
    rw [hend] at hraised
    exact absurd hraised (by simp)
  · rw [if_neg hraised, if_neg (by omega)] at hend ⊢
    cases hmsg : fetchMessage messageIdOf folder uid uidvalidity
        (st.ask server (.fetch folder.rawName uid)) with
    | ok message => exact ⟨message, List.mem_append_right _ (List.mem_singleton.mpr rfl)⟩
    | error e =>
      rw [hmsg] at hend
      exact absurd hend (by simp)

variable (server messageIdOf) in
theorem fetchUids_extends (folder : ImapFolder) (uidvalidity start : ℕ) (st : ImapScan)
    (uids : List ℕ) :
    st.Extends (uids.foldl (fetchUid server messageIdOf folder uidvalidity start) st) ∧
      (uids.foldl (fetchUid server messageIdOf folder uidvalidity start) st).cursor = st.cursor := by
  induction uids generalizing st with
  | nil => exact ⟨ImapScan.Extends.refl st, rfl⟩
  | cons uid uids ih =>
    obtain ⟨hext, hcursor⟩ := ih (fetchUid server messageIdOf folder uidvalidity start st uid)
    exact ⟨(fetchUid_extends server messageIdOf folder uidvalidity start st uid).trans hext,
      hcursor.trans (fetchUid_cursor folder uidvalidity start st uid)⟩

theorem fetchUids_raised (folder : ImapFolder) (uidvalidity start : ℕ) (st : ImapScan)
    (uids : List ℕ)
    (h : (uids.foldl (fetchUid server messageIdOf folder uidvalidity start) st).raised = none) :
    st.raised = none := by
  induction uids generalizing st with
  | nil => exact h
  | cons uid uids ih =>
    have hone := ih (fetchUid server messageIdOf folder uidvalidity start st uid) h
    cases hraised : st.raised with
    | none => rfl
    | some e =>
      -- a pass that raised stands still
      have hstays : fetchUid server messageIdOf folder uidvalidity start st uid = st := by
        simp only [fetchUid]
        rw [if_pos (by rw [hraised]; rfl)]
      rw [hstays, hraised] at hone
      exact absurd hone (by simp)

theorem fetchUids_yields (folder : ImapFolder) (uidvalidity start : ℕ) (st : ImapScan)
    (uids : List ℕ)
    (h : (uids.foldl (fetchUid server messageIdOf folder uidvalidity start) st).raised = none) :
    ∀ u ∈ uids, start ≤ u →
      WasYielded (uids.foldl (fetchUid server messageIdOf folder uidvalidity start) st).yielded
        folder.rawName uidvalidity u := by
  induction uids generalizing st with
  | nil => exact fun u hu => absurd hu List.not_mem_nil
  | cons uid uids ih =>
    intro u hu hle
    rcases List.mem_cons.mp hu with rfl | hu
    · have hone := fetchUids_raised folder uidvalidity start _ uids h
      obtain ⟨message, hmem⟩ := fetchUid_yields folder uidvalidity start st u hle hone
      exact ⟨message, (fetchUids_extends server messageIdOf folder uidvalidity start _ uids).1.yielded
        hmem⟩
    · exact ih _ h u hu hle

variable (server messageIdOf) in
/-- A search that is not raised is refused, or everything it lists from `start` on is yielded. -/
theorem searchFolder_cases (folder : ImapFolder) (uidvalidity start uidnext : ℕ) (st : ImapScan) :
    st.Extends (searchFolder server messageIdOf folder uidvalidity start uidnext st) ∧
    (searchFolder server messageIdOf folder uidvalidity start uidnext st).cursor = st.cursor ∧
    ((searchFolder server messageIdOf folder uidvalidity start uidnext st).raised = none →
      ∃ older, st.log <:+ older ∧
        older <:+ (searchFolder server messageIdOf folder uidvalidity start uidnext st).log ∧
        (⟨.search folder.rawName start uidnext, .ok .refused⟩ :: older <:+
            (searchFolder server messageIdOf folder uidvalidity start uidnext st).log ∨
          ∃ uids, server.answer older (.search folder.rawName start uidnext) = .ok (.listed uids) ∧
            ∀ u ∈ uids, start ≤ u → WasYielded
              (searchFolder server messageIdOf folder uidvalidity start uidnext st).yielded
              folder.rawName uidvalidity u)) := by
  have hselect := st.extends_after server (.select folder.rawName)
  set st₁ := st.after server (.select folder.rawName) with hst₁
  have hsearch := st₁.extends_after server (.search folder.rawName start uidnext)
  set st₂ := st₁.after server (.search folder.rawName start uidnext) with hst₂
  have hlog : st₂.log = ⟨.search folder.rawName start uidnext,
      st₁.ask server (.search folder.rawName start uidnext)⟩ :: st₁.log := rfl
  simp only [searchFolder, ← hst₁, ← hst₂]
  cases st.ask server (.select folder.rawName) with
  | error e => exact ⟨⟨hselect.log, hselect.yielded⟩, rfl, by simp⟩
  | ok _ =>
    simp only
    cases hans : st₁.ask server (.search folder.rawName start uidnext) with
    | error e =>
      exact ⟨⟨(hselect.trans hsearch).log, (hselect.trans hsearch).yielded⟩, rfl, by simp⟩
    | ok answer =>
      -- a refused search ends the folder quietly, a listed one is fetched UID by UID
      cases answer with
      | refused =>
        refine ⟨hselect.trans hsearch, rfl, fun _ => ⟨st₁.log, hselect.log, hsearch.log, ?_⟩⟩
        rw [hans] at hlog
        rw [hlog]
        exact Or.inl List.suffix_rfl
      | listed uids =>
        obtain ⟨hext, hcursor⟩ :=
          fetchUids_extends server messageIdOf folder uidvalidity start st₂ uids
        refine ⟨(hselect.trans hsearch).trans hext, hcursor, fun hend =>
          ⟨st₁.log, hselect.log, hsearch.log.trans hext.log, Or.inr ⟨uids, hans, ?_⟩⟩⟩
        exact fetchUids_yields folder uidvalidity start st₂ uids hend

/-- The search justifies the entry: the messages below `start` were yielded before, those from
`start` on are listed and yielded now. -/
theorem searchFolder_covers (folder : ImapFolder) (uidvalidity start uidnext : ℕ) (st : ImapScan)
    (old : List Yielded)
    (hend : (searchFolder server messageIdOf folder uidvalidity start uidnext st).raised = none)
    (hsearches : server.Searches
      (searchFolder server messageIdOf folder uidvalidity start uidnext st).log)
    (hnext : uidnext ≤ (server.boxes st.log folder.rawName).uidnext)
    (hbelow : uidvalidity = (server.boxes st.log folder.rawName).uidvalidity →
      ∀ u ∈ (server.boxes st.log folder.rawName).uids, u < start →
        WasYielded old folder.rawName uidvalidity u) :
    EntryCovers
      (server.boxes (searchFolder server messageIdOf folder uidvalidity start uidnext st).log
        folder.rawName)
      (old ++ (searchFolder server messageIdOf folder uidvalidity start uidnext st).yielded)
      folder.rawName ⟨uidvalidity, uidnext⟩ := by
  obtain ⟨hext, -, hcases⟩ := searchFolder_cases server messageIdOf folder uidvalidity start uidnext st
  obtain ⟨older, hafter, hbefore, hfound⟩ := hcases hend
  have hgrows := server.grows_of_suffix hext.log folder.rawName
  have hgrows₁ := server.grows_of_suffix hafter folder.rawName
  have hgrows₂ := server.grows_of_suffix hbefore folder.rawName
  intro hv
  refine ⟨hnext.trans hgrows.uidnext, fun u hu hbelowNext => ?_⟩
  have hlt : u < uidnext := hbelowNext
  -- below the start an earlier pass has it, from the start on this search does
  by_cases hstart : u < start
  · have hthen := hgrows.mem_of_lt hu hnext hlt
    obtain ⟨message, hmem⟩ := hbelow (hv.trans hgrows.uidvalidity) u hthen hstart
    exact ⟨message, List.mem_append_left _ hmem⟩
  · -- the message was there when the search was made
    have hthen := hgrows₂.mem_of_lt hu (hnext.trans hgrows₁.uidnext) hlt
    rcases hfound with hrefused | ⟨uids, hans, hyields⟩
    · have hle := hsearches older folder.rawName start uidnext hrefused u hthen (by omega)
      omega
    · have hlisted := (server.search_listed older folder.rawName start uidnext uids hans u).mpr
        ⟨hthen, Or.inl (by omega)⟩
      obtain ⟨message, hmem⟩ := hyields u hlisted (by omega)
      exact ⟨message, List.mem_append_right _ hmem⟩

/-- The invariant of a pass. `old` is what earlier passes yielded; the new cursor is covered by
that and by what this pass yielded, unless the pass has raised. -/
structure Scanning (server : ImapServer) (since : ImapCursor) (old : List Yielded)
    (st : ImapScan) : Prop where
  since : Covers (server.boxes st.log) old since
  covers : st.raised = none → Covers (server.boxes st.log) (old ++ st.yielded) st.cursor
  dated : ∀ raw c, st.cursor.lookup raw = some c →
    c.uidvalidity = 0 ∨ c.uidvalidity = (server.boxes st.log raw).uidvalidity

/-- What STATUS says is true, or says nothing of the folder. -/
theorem readStatus_true {log : ImapLog} {raw : String} {answer : StatusAnswer}
    (h : server.answer log (.status raw) = .ok answer) :
    ((readStatus answer).1 = 0 ∨ (readStatus answer).1 = (server.boxes log raw).uidvalidity) ∧
      (readStatus answer).2 ≤ (server.boxes log raw).uidnext := by
  have hpos := (server.boxes log raw).uidnext_pos
  cases answer with
  | refused => exact ⟨Or.inl rfl, hpos⟩
  | empty => exact ⟨Or.inl rfl, hpos⟩
  | items uidvalidity uidnext =>
    constructor
    · cases uidvalidity with
      | none => exact Or.inl rfl
      | some v => exact Or.inr (server.status_uidvalidity log raw v uidnext h)
    · cases uidnext with
      | none => exact hpos
      | some n => exact (server.status_uidnext log raw uidvalidity n h).le

variable (server messageIdOf) in
theorem scanFolder_extends (since : ImapCursor) (st : ImapScan) (folder : ImapFolder) :
    st.Extends (scanFolder server messageIdOf since st folder) := by
  have hafter := st.extends_after server (.status folder.rawName)
  have hsearch : ∀ v start n cursor, st.Extends (searchFolder server messageIdOf folder v start n
      { st.after server (.status folder.rawName) with cursor := cursor }) := by
    intro v start n cursor
    have hmid : st.Extends { st.after server (.status folder.rawName) with cursor := cursor } :=
      ⟨hafter.log, hafter.yielded⟩
    exact hmid.trans (searchFolder_cases server messageIdOf folder v start n _).1
  simp only [scanFolder]
  split
  · exact ImapScan.Extends.refl st
  · split
    · exact ⟨hafter.log, hafter.yielded⟩
    · split
      · exact hsearch ..
      · split
        · split
          · exact ⟨hafter.log, hafter.yielded⟩
          · exact hsearch ..
        · exact hsearch ..

section round
variable {since : ImapCursor} {old : List Yielded} {st st' : ImapScan}

theorem Scanning.since_later (h : Scanning server since old st) (hext : st.Extends st') :
    Covers (server.boxes st'.log) old since := fun raw c hc =>
  (h.since raw c hc).grows (server.grows_of_suffix hext.log raw) (List.Subset.refl _)

/-- An entry of the cursor stays covered and dated as the log grows. -/
theorem Scanning.entry_later (h : Scanning server since old st) (hext : st.Extends st')
    {raw : String} {c : FolderCursor} (hc : st.cursor.lookup raw = some c) :
    (st.raised = none → EntryCovers (server.boxes st'.log raw) (old ++ st'.yielded) raw c) ∧
      (c.uidvalidity = 0 ∨ c.uidvalidity = (server.boxes st'.log raw).uidvalidity) := by
  have hgrows := server.grows_of_suffix hext.log raw
  have hsub : old ++ st.yielded ⊆ old ++ st'.yielded := by
    intro y hy
    rcases List.mem_append.mp hy with hy | hy
    · exact List.mem_append_left _ hy
    · exact List.mem_append_right _ (hext.yielded hy)
  refine ⟨fun hraised => (h.covers hraised raw c hc).grows hgrows hsub, ?_⟩
  rw [hgrows.uidvalidity]
  exact h.dated raw c hc

/-- A new entry that is covered and dated keeps the cursor so. -/
theorem Scanning.record (h : Scanning server since old st) (hnone : st.raised = none)
    (hext : st.Extends st') {raw : String} {v n : ℕ}
    (hcursor : st'.cursor = st.cursor.insert raw ⟨v, n⟩)
    (hdated : v = 0 ∨ v = (server.boxes st'.log raw).uidvalidity)
    (hentry : st'.raised = none →
      EntryCovers (server.boxes st'.log raw) (old ++ st'.yielded) raw ⟨v, n⟩) :
    Scanning server since old st' := by
  -- every entry but that of the folder is an old one
  have hcases : ∀ {raw' c}, st'.cursor.lookup raw' = some c →
      (raw' = raw ∧ c = ⟨v, n⟩) ∨ st.cursor.lookup raw' = some c := by
    intro raw' c hc
    rw [hcursor] at hc
    by_cases hraw : raw' = raw
    · subst hraw
      rw [AList.lookup_insert] at hc
      exact Or.inl ⟨rfl, (Option.some.inj hc).symm⟩
    · rw [AList.lookup_insert_ne hraw] at hc
      exact Or.inr hc
  refine ⟨h.since_later hext, fun hend raw' c hc => ?_, fun raw' c hc => ?_⟩
  · rcases hcases hc with ⟨rfl, rfl⟩ | hold
    · exact hentry hend
    · exact (h.entry_later hext hold).1 hnone
  · rcases hcases hc with ⟨rfl, rfl⟩ | hold
    · exact hdated
    · exact (h.entry_later hext hold).2

/-- A round that searches the folder from `start`, once STATUS has said `v` and `n`. -/
theorem Scanning.search (h : Scanning server since old st) (hnone : st.raised = none)
    (folder : ImapFolder) {v n start : ℕ}
    (hv : v = 0 ∨ v = (server.boxes st.log folder.rawName).uidvalidity)
    (hn : n ≤ (server.boxes st.log folder.rawName).uidnext) (hext : st.Extends st')
    (hcursor : st'.cursor = st.cursor.insert folder.rawName ⟨v, n⟩)
    (hbelow : v = (server.boxes st'.log folder.rawName).uidvalidity →
      ∀ u ∈ (server.boxes st'.log folder.rawName).uids, u < start →
        WasYielded old folder.rawName v u)
    (hsearches : server.Searches (searchFolder server messageIdOf folder v start n st').log) :
    Scanning server since old (searchFolder server messageIdOf folder v start n st') := by
  obtain ⟨hsearch, hkept, -⟩ := searchFolder_cases server messageIdOf folder v start n st'
  have hgrows := server.grows_of_suffix hext.log folder.rawName
  have hext' := hext.trans hsearch
  refine h.record hnone hext' (hkept.trans hcursor) ?_ fun hend =>
    searchFolder_covers folder v start n st' old hend hsearches (hn.trans hgrows.uidnext) hbelow
  rw [(server.grows_of_suffix hext'.log folder.rawName).uidvalidity]
  exact hv

/-- One folder more: its entry is covered, whichever way the round goes. -/
theorem Scanning.scanFolder (h : Scanning server since old st) (folder : ImapFolder)
    (hsearches : server.Searches (scanFolder server messageIdOf since st folder).log) :
    Scanning server since old (scanFolder server messageIdOf since st folder) := by
  by_cases hraised : st.raised.isSome = true
  · have hstays : GwsMigrator.scanFolder server messageIdOf since st folder = st := by
      simp only [GwsMigrator.scanFolder]
      rw [if_pos hraised]
    rw [hstays]
    exact h
  · have hnone : st.raised = none := by simpa using hraised
    set st₁ := st.after server (.status folder.rawName) with hst₁
    have hafter : st.Extends st₁ := st.extends_after server (.status folder.rawName)
    simp only [GwsMigrator.scanFolder] at hsearches ⊢
    rw [if_neg hraised] at hsearches ⊢
    cases hans : st.ask server (.status folder.rawName) with
    | error e =>
      exact ⟨h.since_later ⟨hafter.log, hafter.yielded⟩, by simp,
        fun raw c hc => (h.entry_later hafter hc).2⟩
    | ok answer =>
      rw [hans] at hsearches
      simp only at hsearches ⊢
      obtain ⟨hv, hn⟩ := readStatus_true hans
      set v := (readStatus answer).1 with hv_def
      set n := (readStatus answer).2 with hn_def
      set st₂ : ImapScan := { st₁ with cursor := st₁.cursor.insert folder.rawName ⟨v, n⟩ } with hst₂
      have hext : st.Extends st₂ := ⟨hafter.log, hafter.yielded⟩
      have hfirst : v = (server.boxes st₂.log folder.rawName).uidvalidity →
          ∀ u ∈ (server.boxes st₂.log folder.rawName).uids, u < 1 →
            WasYielded old folder.rawName v u := by
        intro _ u hu hlt
        have hpos := (server.boxes st₂.log folder.rawName).uids_pos u hu
        omega
      cases hprev : since.lookup folder.rawName with
      | none =>
        rw [hprev] at hsearches
        exact h.search hnone folder hv hn hext rfl hfirst hsearches
      | some prev =>
        rw [hprev] at hsearches
        simp only at hsearches ⊢
        by_cases hvalid : prev.uidvalidity = v
        · rw [if_pos hvalid] at hsearches ⊢
          have hprevCovers := h.since_later hext folder.rawName prev hprev
          rw [EntryCovers, hvalid] at hprevCovers
          by_cases hle : n ≤ prev.uidnext
          · -- nothing new in this folder
            rw [if_pos hle]
            have hgrows := server.grows_of_suffix hext.log folder.rawName
            refine h.record hnone hext rfl ?_ fun _ hcur => ⟨hn.trans hgrows.uidnext, fun u hu hlt => ?_⟩
            · rw [hgrows.uidvalidity]
              exact hv
            · have hlt' : u < n := hlt
              obtain ⟨message, hmem⟩ := (hprevCovers hcur).2 u hu (by omega)
              exact ⟨message, List.mem_append_left _ hmem⟩
          · rw [if_neg hle] at hsearches ⊢
            exact h.search hnone folder hv hn hext rfl
              (fun hcur u hu hlt => (hprevCovers hcur).2 u hu hlt) hsearches
        · rw [if_neg hvalid] at hsearches ⊢
          exact h.search hnone folder hv hn hext rfl hfirst hsearches

end round

theorem Scanning.scanFolders {since : ImapCursor} {old : List Yielded} (folders : List ImapFolder)
    (st : ImapScan) (h : Scanning server since old st)
    (hsearches : server.Searches
      (folders.foldl (GwsMigrator.scanFolder server messageIdOf since) st).log) :
    Scanning server since old
      (folders.foldl (GwsMigrator.scanFolder server messageIdOf since) st) := by
  have hlater : ∀ (folders : List ImapFolder) (st : ImapScan), st.log <:+
      (folders.foldl (GwsMigrator.scanFolder server messageIdOf since) st).log := by
    intro folders
    induction folders with
    | nil => exact fun st => List.suffix_rfl
    | cons folder folders ih => exact fun st =>
        (scanFolder_extends server messageIdOf since st folder).log.trans (ih _)
  induction folders generalizing st with
  | nil => exact h
  | cons folder folders ih =>
    exact ih _ (h.scanFolder folder (hsearches.suffix (hlater folders _))) hsearches

variable (server messageIdOf) in
/-- A pass from a cursor that is covered keeps what is known about both cursors. -/
theorem iterMessages_scanning (excludeFolders : List String) (since : ImapCursor)
    (old : List Yielded) (hsince : Covers (server.boxes []) old since)
    (hsearches : server.Searches
      (iterMessages server messageIdOf excludeFolders since).log) :
    Scanning server since old (iterMessages server messageIdOf excludeFolders since) := by
  let st : ImapScan := {}
  have hafter := st.extends_after server .list
  have hstart : ∀ raised, Scanning server since old { st.after server .list with raised := raised } :=
    fun raised => ⟨fun raw c hc => (hsince raw c hc).grows (server.grows_of_suffix hafter.log raw)
      (List.Subset.refl _), fun _ raw c hc => absurd hc (by simp [st, ImapScan.after]),
      fun raw c hc => absurd hc (by simp [st, ImapScan.after])⟩
  simp only [iterMessages] at hsearches ⊢
  split at hsearches
  · exact hstart _
  · exact hstart _
  · exact Scanning.scanFolders _ _ (hstart none) hsearches

end pass

/-- The account over time: its folders, the UIDVALIDITY values they had before, the cursor that
the last completed pass set, and what the completed passes yielded. -/
structure ImapAccount where
  boxes : String → Mailbox
  past : String → Set ℕ := fun _ => ∅
  cursor : ImapCursor := ∅
  yielded : List Yielded := []

/-- Between two passes messages come and go, or the UIDs restart under a new UIDVALIDITY. -/
def Mailbox.Renews (past : Set ℕ) (box box' : Mailbox) : Prop :=
  box.Grows box' ∨ (box'.uidvalidity ≠ box.uidvalidity ∧ box'.uidvalidity ∉ past)

section account
variable (messageIdOf : Bytes → Option String) (excludeFolders : List String)

/-- A pass from the account's cursor. Only a pass that completes sets a new one. -/
def ImapAccount.pass (s : ImapAccount) (server : ImapServer) : ImapAccount :=
  let st := iterMessages server messageIdOf excludeFolders s.cursor
  if st.raised.isSome then { s with boxes := server.boxes st.log }
  else
    { s with
      boxes := server.boxes st.log
      cursor := st.cursor
      yielded := s.yielded ++ st.yielded }

/-- The accounts reached by passes, each completed one of which meets `ok`. -/
inductive ImapReach (ok : ImapServer → ImapLog → Prop) : ImapAccount → Prop
  | start (boxes : String → Mailbox) : ImapReach ok { boxes := boxes }
  | between (s : ImapAccount) (boxes : String → Mailbox) (earlier : ImapReach ok s)
      (renews : ∀ raw, (s.boxes raw).Renews (s.past raw) (boxes raw)) :
      ImapReach ok { s with
        boxes := boxes
        past := fun raw => insert (s.boxes raw).uidvalidity (s.past raw) }
  | pass (s : ImapAccount) (server : ImapServer) (earlier : ImapReach ok s)
      (boxes : server.boxes [] = s.boxes)
      (meets : (iterMessages server messageIdOf excludeFolders s.cursor).raised = none →
        ok server (iterMessages server messageIdOf excludeFolders s.cursor).log) :
      ImapReach ok (s.pass messageIdOf excludeFolders server)

/-- The cursor is covered, and its UIDVALIDITY values are not of the future. -/
structure ImapAccount.Known (s : ImapAccount) : Prop where
  covers : Covers s.boxes s.yielded s.cursor
  dated : ∀ raw c, s.cursor.lookup raw = some c → c.uidvalidity = 0 ∨
    c.uidvalidity ∈ s.past raw ∨ c.uidvalidity = (s.boxes raw).uidvalidity

variable {messageIdOf excludeFolders}

theorem ImapAccount.Known.between {s : ImapAccount} (h : s.Known) (boxes : String → Mailbox)
    (renews : ∀ raw, (s.boxes raw).Renews (s.past raw) (boxes raw)) :
    ImapAccount.Known { s with
      boxes := boxes
      past := fun raw => insert (s.boxes raw).uidvalidity (s.past raw) } := by
  refine ⟨fun raw c hc => ?_, fun raw c hc => ?_⟩
  · rcases renews raw with hgrows | ⟨hnew, hpast⟩
    · exact (h.covers raw c hc).grows hgrows (List.Subset.refl _)
    · -- the entry is of an earlier UIDVALIDITY
      intro hv
      have hv' : c.uidvalidity = (boxes raw).uidvalidity := hv
      have hpos := (boxes raw).uidvalidity_pos
      rcases h.dated raw c hc with hzero | hold | hcur
      · omega
      · exact absurd (hv' ▸ hold) hpast
      · exact absurd (hv'.symm.trans hcur) hnew
  · rcases h.dated raw c hc with hzero | hold | hcur
    · exact Or.inl hzero
    · exact Or.inr (Or.inl (Set.mem_insert_of_mem _ hold))
    · exact Or.inr (Or.inl (hcur ▸ Set.mem_insert _ _))

theorem ImapAccount.Known.pass {s : ImapAccount} (h : s.Known) (server : ImapServer)
    (hboxes : server.boxes [] = s.boxes)
    (hsearches : (iterMessages server messageIdOf excludeFolders s.cursor).raised = none →
      server.Searches (iterMessages server messageIdOf excludeFolders s.cursor).log) :
    (s.pass messageIdOf excludeFolders server).Known := by
  have hgrows : ∀ raw, (s.boxes raw).Grows (server.boxes
      (iterMessages server messageIdOf excludeFolders s.cursor).log raw) := by
    intro raw
    rw [← hboxes]
    exact server.grows_of_suffix (List.nil_suffix) raw
  unfold ImapAccount.pass
  simp only
  -- a pass that raised leaves the old cursor, which the mailbox only grows past
  by_cases hraised : (iterMessages server messageIdOf excludeFolders s.cursor).raised.isSome = true
  · rw [if_pos hraised]
    refine ⟨fun raw c hc => (h.covers raw c hc).grows (hgrows raw) (List.Subset.refl _),
      fun raw c hc => ?_⟩
    simp only
    rw [(hgrows raw).uidvalidity]
    exact h.dated raw c hc
  · have hnone : (iterMessages server messageIdOf excludeFolders s.cursor).raised = none := by
      simpa using hraised
    rw [if_neg hraised]
    have hscan := iterMessages_scanning server messageIdOf excludeFolders s.cursor s.yielded
      (hboxes ▸ h.covers) (hsearches hnone)
    refine ⟨hscan.covers hnone, fun raw c hc => ?_⟩
    rcases hscan.dated raw c hc with hzero | hcur
    · exact Or.inl hzero
    · exact Or.inr (Or.inr hcur)

theorem ImapReach.known {s : ImapAccount}
    (h : ImapReach messageIdOf excludeFolders (fun server log => server.Searches log) s) :
    s.Known := by
  induction h with
  | start boxes => exact ⟨fun raw c hc => absurd hc (by simp), fun raw c hc => absurd hc (by simp)⟩
  | between s boxes _ renews ih => exact ih.between boxes renews
  | pass s server _ hboxes meets ih => exact ih.pass server hboxes meets

end account

/-- A server with one folder, on which nothing happens. -/
def quietServer (box : Mailbox) (refuses : Bool) : ImapServer where
  answer _ c :=
    match c with
    | .list => .ok (.lines [some ⟨"", "/", "INBOX"⟩])
    | .status _ => .ok (.items (some box.uidvalidity) (some box.uidnext))
    | .select _ => .ok ()
    | .search _ start _ =>
      if refuses then .ok .refused
      else .ok (.listed ((List.range box.uidnext).filter
        (fun u => u ∈ box.uids ∧ (start ≤ u ∨ ∀ u' ∈ box.uids, u' ≤ u))))
    | .fetch .. => .ok (.parts [⟨[], some [0]⟩])
  boxes _ _ := box
  grows _ _ _ := Mailbox.Grows.refl box
  status_uidvalidity _ _ _ _ h := by cases h; rfl
  status_uidnext _ _ _ _ h := by cases h; rfl
  search_listed log raw start next uids h u := by
    cases refuses with
    | true => exact absurd h (by simp)
    | false =>
      cases h
      simp only [List.mem_filter, List.mem_range, decide_eq_true_eq]
      exact ⟨fun hu => hu.2, fun hu => ⟨box.uids_lt u hu.1, hu⟩⟩

/-- A folder with one message. -/
def inbox : Mailbox := ⟨7, 2, {1}, by decide, by decide, by decide, by decide⟩

end GwsMigrator
