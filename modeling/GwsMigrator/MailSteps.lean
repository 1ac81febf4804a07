import GwsMigrator.MailJob

/-! What one message does to the rows, the imports and the failure count of a mail pass.
Folder resolution and flag patches touch none of them, and a further copy adds its own import. -/
namespace GwsMigrator
open Dialogue

def primaryImport : Event Call.Ans → Option ItemKey
  | ⟨.importMessage k 0 _ _ _, .ok _⟩ => some k
  | _ => none

/-- The messages whose primary copy was imported, newest first. -/
def primaryImports (log : Log Call.Ans) : List ItemKey := log.filterMap primaryImport

/-- An import of a further copy, whatever it is answered: the message and the place of the copy
in its folder_paths. -/
def extraImport : Event Call.Ans → Option (ItemKey × ℕ)
  | ⟨.importMessage k (slot + 1) _ _ _, _⟩ => some (k, slot + 1)
  | _ => none

/-- The imports of further copies, newest first. -/
def extraImports (log : Log Call.Ans) : List (ItemKey × ℕ) := log.filterMap extraImport

/-- No row, no cursor and no import differs between two worlds. -/
structure SameRows (w w' : World) : Prop where
  rows : w'.db.getItemState = w.db.getItemState
  cursors : w'.db.getCursor = w.db.getCursor
  imports : primaryImports w'.log = primaryImports w.log
  extras : extraImports w'.log = extraImports w.log

theorem SameRows.refl (w : World) : SameRows w w := ⟨rfl, rfl, rfl, rfl⟩

theorem SameRows.trans {w₁ w₂ w₃ : World} (h : SameRows w₁ w₂) (h' : SameRows w₂ w₃) :
    SameRows w₁ w₃ :=
  ⟨h'.rows.trans h.rows, h'.cursors.trans h.cursors, h'.imports.trans h.imports,
    h'.extras.trans h.extras⟩

theorem sameRows_after {g : Graph} {w : World} {c : Call}
    (h : primaryImport ⟨c, g.ask w c⟩ = none) (h' : extraImport ⟨c, g.ask w c⟩ = none) :
    SameRows w (g.after w c) := by
  refine ⟨rfl, rfl, ?_, ?_⟩
  · rw [primaryImports, Graph.after_log, List.filterMap_cons_none h]
    rfl
  · rw [extraImports, Graph.after_log, List.filterMap_cons_none h']
    rfl

/-- The loop state but for the folder cache and the folder rows. -/
structure Quiet (st st' : MailLoop) : Prop where
  same : SameRows st.world st'.world
  failures : st'.failures = st.failures
  tried : st'.tried = st.tried

theorem Quiet.refl (st : MailLoop) : Quiet st st := ⟨SameRows.refl _, rfl, rfl⟩

theorem Quiet.trans {st₁ st₂ st₃ : MailLoop} (h : Quiet st₁ st₂) (h' : Quiet st₂ st₃) :
    Quiet st₁ st₃ :=
  ⟨h.same.trans h'.same, h'.failures.trans h.failures, h'.tried.trans h.tried⟩

section
variable (g : Graph) (user : UserMapping) (importMode : ImportMode)

theorem openSegment_sameRows (w : World) (part : String) (isTopLevel : Bool)
    (parentId : Option Token) : SameRows w (openSegment g w part isTopLevel parentId).2 := by
  unfold openSegment
  cases resolveFolderSegment part isTopLevel with
  | some fid => exact SameRows.refl w
  | none => exact sameRows_after rfl rfl

theorem walkFolder_quiet (parts : List String) (st : MailLoop) (walked : List String)
    (parentId : Option Token) : Quiet st (walkFolder g user st walked parentId parts).2 := by
  induction parts generalizing st walked parentId with
  | nil => exact Quiet.refl st
  | cons part rest ih =>
    simp only [walkFolder]
    cases st.folderCache.lookup ("\\".intercalate (walked ++ [part])) with
    | some fid => exact ih _ _ _
    | none =>
      have hopen := openSegment_sameRows g st.world part (walked = []) parentId
      rcases hs : openSegment g st.world part (walked = []) parentId with ⟨e | fid, w⟩ <;>
        rw [hs] at hopen
      · exact ⟨hopen, rfl, rfl⟩
      · -- the folder row and the cache entry, then the rest of the path
        have hstore : Quiet st { st with
            world := w.upsertFolder ⟨user.sourceId, "mail", "\\".intercalate (walked ++ [part])⟩
              fid ("\\".intercalate (walked ++ [part])),
            folderCache :=
              st.folderCache.insert ("\\".intercalate (walked ++ [part])) fid } :=
          ⟨⟨hopen.rows, hopen.cursors, hopen.imports, hopen.extras⟩, rfl, rfl⟩
        exact hstore.trans (ih _ _ _)

theorem getFolder_quiet (st : MailLoop) (path : String) :
    Quiet st (getFolder g user st path).2 := by
  unfold getFolder
  cases st.folderCache.lookup path with
  | some fid => exact Quiet.refl st
  | none =>
    have hwalk := walkFolder_quiet g user (pathParts path) st [] none
    rcases hw : walkFolder g user st [] none (pathParts path) with ⟨e | u, st'⟩ <;> rw [hw] at hwalk
    · exact hwalk
    · simp only
      cases st'.folderCache.lookup path <;> exact hwalk

/-- A copy that is not the primary one is asked for once and touches no row. -/
theorem importInto_extra (w : World) (k : ItemKey) {slot : ℕ} (hslot : slot ≠ 0)
    (folderId : Token) (msg : SourceMessage) :
    let w' := (importInto g importMode w k slot folderId msg).2
    w'.db.getItemState = w.db.getItemState ∧ w'.db.getCursor = w.db.getCursor ∧
      primaryImports w'.log = primaryImports w.log ∧
      extraImports w'.log = (k, slot) :: extraImports w.log := by
  obtain ⟨slot, rfl⟩ := Nat.exists_eq_succ_of_ne_zero hslot
  simp only [importInto]
  cases g.ask w (.importMessage k (slot + 1) folderId msg importMode) with
  | error e => exact ⟨rfl, rfl, rfl, rfl⟩
  | ok dest => cases importMode <;> exact ⟨rfl, rfl, rfl, rfl⟩

/-- The primary copy: imported exactly when an id comes back. -/
theorem importInto_primary (w : World) (k : ItemKey) (folderId : Token) (msg : SourceMessage) :
    match importInto g importMode w k 0 folderId msg with
    | (.error _, w') => SameRows w w'
    | (.ok _, w') => w'.db.getItemState = w.db.getItemState ∧ w'.db.getCursor = w.db.getCursor ∧
        primaryImports w'.log = k :: primaryImports w.log ∧
        extraImports w'.log = extraImports w.log := by
  simp only [importInto]
  cases hans : g.ask w (.importMessage k 0 folderId msg importMode) with
  | error e =>
    have hnone : primaryImport ⟨.importMessage k 0 folderId msg importMode,
        g.ask w (.importMessage k 0 folderId msg importMode)⟩ = none := by
      rw [hans]
      rfl
    exact sameRows_after hnone rfl
  | ok dest =>
    have himport : primaryImports (g.after w (.importMessage k 0 folderId msg importMode)).log =
        k :: primaryImports w.log := by
      rw [primaryImports, Graph.after_log, hans]
      rfl
    -- a MIME import patches the flags afterwards, which is no import
    cases importMode with
    | json => exact ⟨rfl, rfl, himport, rfl⟩
    | mime =>
      have hpatch : SameRows (g.after w (.importMessage k 0 folderId msg .mime))
          (g.after (g.after w (.importMessage k 0 folderId msg .mime))
            (.patchMessageFlags dest msg)) := sameRows_after rfl rfl
      exact ⟨rfl, rfl, hpatch.imports.trans himport, rfl⟩

/-- What further copies do: they try places of the message `k`, and ask for an import at some of
these, those whose folder is there. -/
structure Copies (k : ItemKey) (tries : List ℕ) (st st' : MailLoop) : Prop where
  rows : st'.world.db.getItemState = st.world.db.getItemState
  cursors : st'.world.db.getCursor = st.world.db.getCursor
  imports : primaryImports st'.world.log = primaryImports st.world.log
  failures : st'.failures = st.failures
  tried : st'.tried = tries.map (fun i => (k, i)) ++ st.tried
  asked : ∃ asks : List ℕ, asks.Sublist tries ∧
    extraImports st'.world.log = asks.map (fun i => (k, i)) ++ extraImports st.world.log

theorem Copies.trans {k : ItemKey} {tries tries' : List ℕ} {st₁ st₂ st₃ : MailLoop}
    (h : Copies k tries st₁ st₂) (h' : Copies k tries' st₂ st₃) :
    Copies k (tries' ++ tries) st₁ st₃ := by
  obtain ⟨asks, hsub, hlog⟩ := h.asked
  obtain ⟨asks', hsub', hlog'⟩ := h'.asked
  refine ⟨h'.rows.trans h.rows, h'.cursors.trans h.cursors, h'.imports.trans h.imports,
    h'.failures.trans h.failures, ?_, asks' ++ asks, hsub'.append hsub, ?_⟩
  · rw [h'.tried, h.tried, List.map_append, List.append_assoc]
  · rw [hlog', hlog, List.map_append, List.append_assoc]

theorem importExtra_copies (k : ItemKey) (msg : SourceMessage) (st : MailLoop)
    (extra : String × ℕ) (hslot : extra.2 ≠ 0) :
    Copies k [extra.2] st (importExtra g user importMode k msg st extra) := by
  have hfolder := getFolder_quiet g user { st with tried := (k, extra.2) :: st.tried } extra.1
  unfold importExtra importCopy
  rcases hf : getFolder g user { st with tried := (k, extra.2) :: st.tried } extra.1
    with ⟨e | folderId, st'⟩ <;> rw [hf] at hfolder
  · exact ⟨hfolder.same.rows, hfolder.same.cursors, hfolder.same.imports, hfolder.failures,
      hfolder.tried, [], List.nil_sublist _, hfolder.same.extras⟩
  · obtain ⟨hrows, hcursors, himports, hextras⟩ :=
      importInto_extra g importMode st'.world k hslot folderId msg
    exact ⟨hrows.trans hfolder.same.rows, hcursors.trans hfolder.same.cursors,
      himports.trans hfolder.same.imports, hfolder.failures, hfolder.tried, [extra.2],
      List.Sublist.refl _, hextras.trans (congrArg _ hfolder.same.extras)⟩

/-- The further copies of a message: each of its places is tried once, and an import is asked for
at each at most once. -/
theorem importExtras_copies (k : ItemKey) (msg : SourceMessage) (extras : List (String × ℕ))
    (hslots : ∀ extra ∈ extras, extra.2 ≠ 0) (st : MailLoop) :
    Copies k (extras.map Prod.snd).reverse st
      (extras.foldl (importExtra g user importMode k msg) st) := by
  induction extras generalizing st with
  | nil => exact ⟨rfl, rfl, rfl, rfl, rfl, [], List.Sublist.refl _, rfl⟩
  | cons extra extras ih =>
    have hone := importExtra_copies g user importMode k msg st extra
      (hslots extra List.mem_cons_self)
    have hrest := ih (fun e he => hslots e (List.mem_cons_of_mem extra he))
      (importExtra g user importMode k msg st extra)
    rw [List.map_cons, List.reverse_cons]
    exact hone.trans hrest

theorem targetPaths_slots (msg : SourceMessage) :
    (∀ extra ∈ (targetPaths msg).2, extra.2 ≠ 0) ∧
      ((targetPaths msg).2.map Prod.snd).Nodup := by
  unfold targetPaths
  cases msg.folderPaths with
  | nil => exact ⟨fun _ h => absurd h List.not_mem_nil, List.nodup_nil⟩
  | cons path extras =>
    refine ⟨fun extra h => ?_, ?_⟩
    · have hle := List.le_snd_of_mem_zipIdx h
      omega
    · rw [List.zipIdx_map_snd]
      exact List.nodup_range' ..

end

/-- What the loop body does with the message of key `k`. -/
inductive MessageStep (k : ItemKey) (st st' : MailLoop) : Prop
  | skipped (done : st.world.db.isDone k = true) (same : st' = st)
  | failed (notDone : st.world.db.isDone k = false) (v : ItemValues) (status : v.status = .failed)
      (rows : st'.world.db.getItemState = Function.update st.world.db.getItemState k (some v))
      (cursors : st'.world.db.getCursor = st.world.db.getCursor)
      (imports : primaryImports st'.world.log = primaryImports st.world.log)
      (failures : st'.failures = st.failures + 1) (tried : st'.tried = st.tried)
      (extras : extraImports st'.world.log = extraImports st.world.log)
  | imported (notDone : st.world.db.isDone k = false) (v : ItemValues) (status : v.status = .done)
      (rows : st'.world.db.getItemState = Function.update st.world.db.getItemState k (some v))
      (cursors : st'.world.db.getCursor = st.world.db.getCursor)
      (imports : primaryImports st'.world.log = k :: primaryImports st.world.log)
      (failures : st'.failures = st.failures) (slots : List ℕ) (distinct : slots.Nodup)
      (tried : st'.tried = slots.map (fun i => (k, i)) ++ st.tried)
      (asks : List ℕ) (among : asks.Sublist slots)
      (extras : extraImports st'.world.log =
        asks.map (fun i => (k, i)) ++ extraImports st.world.log)

section
variable {g : Graph} {user : UserMapping} {importMode : ImportMode}

/-- A message that fails after nothing but quiet steps gets a failed row and counts once. -/
theorem messageStep_fail {k : ItemKey} {st st₁ : MailLoop} (hdone : st.world.db.isDone k = false)
    (h : Quiet st st₁) (text : String) : MessageStep k st (failMessage st₁ k text) := by
  refine .failed hdone { status := .failed, lastError := some text } rfl ?_ ?_ ?_ ?_ h.tried
    h.same.extras
  · rw [failMessage, World.upsertItem_db, Db.rows_upsertItem, h.same.rows]
  · exact h.same.cursors
  · exact h.same.imports
  · rw [failMessage, h.failures]

variable (g user importMode) in
theorem processMessage_step (st : MailLoop) (msg : SourceMessage) :
    MessageStep (messageKey user msg.sourceId) st (processMessage g user importMode st msg) := by
  simp only [processMessage]
  by_cases hdone : st.world.db.isDone (messageKey user msg.sourceId) = true
  · rw [if_pos hdone]
    exact .skipped hdone rfl
  · rw [if_neg hdone]
    have hnot : st.world.db.isDone (messageKey user msg.sourceId) = false := by simpa using hdone
    by_cases herr : msg.fetchError = ""
    · rw [if_neg (not_not.mpr herr)]
      have hfolder := getFolder_quiet g user st (targetPaths msg).1
      simp only [importCopy]
      rcases hf : getFolder g user st (targetPaths msg).1 with ⟨e | folderId, st₁⟩ <;>
        rw [hf] at hfolder
      · exact messageStep_fail hnot hfolder e.text
      · -- the folder is there: what the import answers decides
        have himport := importInto_primary g importMode st₁.world (messageKey user msg.sourceId)
          folderId msg
        simp only
        rcases hi : importInto g importMode st₁.world (messageKey user msg.sourceId) 0 folderId msg
          with ⟨e | dest, w⟩ <;> rw [hi] at himport
        · have hquiet : Quiet st₁ { st₁ with world := w } := ⟨himport, rfl, rfl⟩
          exact messageStep_fail hnot (hfolder.trans hquiet) e.text
        · obtain ⟨hrows, hcursors, himports, hextras⟩ := himport
          have hslots := targetPaths_slots msg
          simp only
          -- the row is written before the further copies, which leave it alone
          set row : ItemValues :=
            { sourceHash := orNone msg.dedupHash, destId := some dest, status := .done } with hrow
          have hcopies := importExtras_copies g user importMode (messageKey user msg.sourceId) msg
            (targetPaths msg).2 hslots.1
            { st₁ with world := w.upsertItem (messageKey user msg.sourceId) row }
          obtain ⟨asks, hsub, hasked⟩ := hcopies.asked
          refine .imported hnot row rfl ?_ ?_ ?_ ?_ ((targetPaths msg).2.map Prod.snd).reverse
            (List.nodup_reverse.mpr hslots.2) ?_ asks hsub ?_
          · rw [hcopies.rows, World.upsertItem_db, Db.rows_upsertItem, hrows, hfolder.same.rows]
          · exact hcopies.cursors.trans (hcursors.trans hfolder.same.cursors)
          · rw [hcopies.imports, World.upsertItem_log, himports, hfolder.same.imports]
          · exact hcopies.failures.trans hfolder.failures
          · rw [hcopies.tried, hfolder.tried]
          · rw [hasked, World.upsertItem_log, hextras, hfolder.same.extras]
    · rw [if_pos herr]
      exact messageStep_fail hnot (Quiet.refl st) msg.fetchError

end

theorem isDone_of_rows {w w' : World} {k k' : ItemKey} {v : ItemValues}
    (h : w'.db.getItemState = Function.update w.db.getItemState k (some v)) :
    w'.db.isDone k' = if k' = k then decide (v.status = .done) else w.db.isDone k' := by
  rw [Db.isDone_eq, Db.isDone_eq, h, Function.update_apply]
  split <;> simp

/-- A row that is done is never touched again. -/
theorem MessageStep.done_stays {k : ItemKey} {st st' : MailLoop} (h : MessageStep k st st')
    {k' : ItemKey} (hk' : st.world.db.isDone k' = true) :
    st'.world.db.getItemState k' = st.world.db.getItemState k' := by
  have hne : st.world.db.isDone k = false → k' ≠ k := by
    rintro hk rfl
    rw [hk] at hk'
    exact absurd hk' (by simp)
  cases h with
  | skipped done same => rw [same]
  | failed notDone v status rows => rw [rows, Function.update_of_ne (hne notDone)]
  | imported notDone v status rows => rw [rows, Function.update_of_ne (hne notDone)]

theorem MessageStep.isDone_stays {k : ItemKey} {st st' : MailLoop} (h : MessageStep k st st')
    {k' : ItemKey} (hk' : st.world.db.isDone k' = true) : st'.world.db.isDone k' = true := by
  rw [Db.isDone_eq, h.done_stays hk', ← Db.isDone_eq]
  exact hk'

/-- The done check of another message is not touched. -/
theorem MessageStep.isDone_of_ne {k : ItemKey} {st st' : MailLoop} (h : MessageStep k st st')
    {k' : ItemKey} (hne : k' ≠ k) : st'.world.db.isDone k' = st.world.db.isDone k' := by
  cases h with
  | skipped done same => rw [same]
  | failed notDone v status rows => rw [isDone_of_rows rows, if_neg hne]
  | imported notDone v status rows => rw [isDone_of_rows rows, if_neg hne]

/-- What a pass of the mail job does: it stops before the loop, or runs the loop over one
enumeration and then saves a cursor or not. -/
theorem runMail_cases (g : Graph) (user : UserMapping) (importMode : ImportMode) (mode : Mode)
    (source : Option Token → Enumeration SourceMessage) (w : World) :
    let r := runMail g user importMode mode source w
    let w' := g.after w (.getUser user.destId)
    (r.world = w' ∧ r.saved = [] ∧ r.tried = []) ∨
    ∃ since, startFrom mode (w.db.getCursor ⟨user.sourceId, "mail"⟩) = some since ∧
      ∃ st : MailLoop,
        st = (source since).items.foldl (processMessage g user importMode) { world := w' } ∧
        r.tried = st.tried ∧ r.world.log = st.world.log ∧
        r.world.db.getItemState = st.world.db.getItemState ∧
        ((r.saved = [] ∧ r.world.db.getCursor = st.world.db.getCursor) ∨
          (r.saved ≠ [] ∧ st.failures = 0 ∧ (source since).raised = none)) := by
  intro r w'
  simp only [r, w', runMail]
  cases g.ask w (.getUser user.destId) with
  | error e => exact Or.inl ⟨rfl, rfl, rfl⟩
  | ok id =>
    simp only [Graph.getCursor_after]
    cases hs : startFrom mode (w.db.getCursor ⟨user.sourceId, "mail"⟩) with
    | none => exact Or.inl ⟨rfl, rfl, rfl⟩
    | some since =>
      refine Or.inr ⟨since, rfl, _, rfl, ?_⟩
      simp only [migrateMail]
      by_cases hraised : (source since).raised.isSome = true
      · rw [if_pos hraised]
        exact ⟨rfl, rfl, rfl, Or.inl ⟨rfl, rfl⟩⟩
      · rw [if_neg hraised]
        refine ⟨rfl, advanceCursor_log .., ?_, ?_⟩
        · funext k
          exact advanceCursor_getItemState ..
        · simp only
          set st := (source since).items.foldl (processMessage g user importMode)
            { world := g.after w (.getUser user.destId) }
          set r₀ : JobResult :=
            { world := st.world, failures := st.failures, raised := (source since).raised }
          -- the cursor is saved only behind a whole loop without a failure
          obtain ⟨c, hc, hfail, hsaved, hcur⟩ | ⟨hnot, hsame⟩ := advanceCursor_cases r₀
            ⟨user.sourceId, "mail"⟩ st.failures (source since).lastCursor
          · exact Or.inr ⟨by simp [hsaved], hfail, by simpa using hraised⟩
          · rw [hsame]
            exact Or.inl ⟨rfl, rfl⟩

end GwsMigrator
