import GwsMigrator.MailSteps

/-! No message is imported twice, over any history of mail passes. -/
namespace GwsMigrator
open Dialogue

structure MailPass where
  mode : Mode
  importMode : ImportMode
  source : Option Token → Enumeration SourceMessage

/-- The world, and every further copy that was ever tried. -/
structure MailState where
  world : World := {}
  tried : List (ItemKey × ℕ) := []

def MailState.pass (g : Graph) (user : UserMapping) (s : MailState) (p : MailPass) : MailState :=
  let r := runMail g user p.importMode p.mode p.source s.world
  { world := r.world, tried := r.tried ++ s.tried }

def mailHistory (g : Graph) (user : UserMapping) (history : List MailPass) : MailState :=
  history.foldl (MailState.pass g user) {}

/-- What is imported or tried belongs to done rows, and is there once; an import of a further copy
is asked for where the copy is tried and nowhere else. -/
structure ImportedOnce (w : World) (tries : List (ItemKey × ℕ)) : Prop where
  imports : (primaryImports w.log).Nodup
  imports_done : ∀ k ∈ primaryImports w.log, w.db.isDone k = true
  tried : tries.Nodup
  tried_done : ∀ t ∈ tries, w.db.isDone t.1 = true
  asked : (extraImports w.log).Sublist tries

theorem MessageStep.importedOnce {k : ItemKey} {st st' : MailLoop} (h : MessageStep k st st')
    {earlier : List (ItemKey × ℕ)} (hi : ImportedOnce st.world (st.tried ++ earlier)) :
    ImportedOnce st'.world (st'.tried ++ earlier) := by
  have hstays : ∀ k', st.world.db.isDone k' = true → st'.world.db.isDone k' = true :=
    fun k' hk' => h.isDone_stays hk'
  cases h with
  | skipped done same =>
    rw [same]
    exact hi
  | failed notDone v status rows cursors imports failures tried extras =>
    refine ⟨imports ▸ hi.imports, fun k' hk' => ?_, tried ▸ hi.tried, fun t ht => ?_, ?_⟩
    · exact hstays k' (hi.imports_done k' (imports ▸ hk'))
    · exact hstays t.1 (hi.tried_done t (tried ▸ ht))
    · rw [extras, tried]
      exact hi.asked
  | imported notDone v status rows cursors imports failures slots distinct tried asks among extras =>
    -- `k` was not done, so nothing of it was imported or tried before
    have hnew : ∀ k', st.world.db.isDone k' = true → k' ≠ k := by
      rintro k' hk' rfl
      rw [notDone] at hk'
      exact absurd hk' (by simp)
    have hdone : st'.world.db.isDone k = true := by
      rw [isDone_of_rows rows, if_pos rfl, status]
      rfl
    have hslots : (slots.map (fun i => (k, i))).Nodup :=
      distinct.map (fun _ _ he => (Prod.mk.inj he).2)
    refine ⟨?_, ?_, ?_, ?_, ?_⟩
    · rw [imports, List.nodup_cons]
      exact ⟨fun hk => hnew k (hi.imports_done k hk) rfl, hi.imports⟩
    · intro k' hk'
      rw [imports] at hk'
      rcases List.mem_cons.mp hk' with rfl | hk'
      · exact hdone
      · exact hstays k' (hi.imports_done k' hk')
    · rw [tried, List.append_assoc, List.nodup_append]
      refine ⟨hslots, hi.tried, ?_⟩
      rintro a ha b hb rfl
      obtain ⟨i, -, rfl⟩ := List.mem_map.mp ha
      exact hnew k (hi.tried_done _ hb) rfl
    · intro t ht
      rw [tried, List.append_assoc] at ht
      rcases List.mem_append.mp ht with ht | ht
      · obtain ⟨i, -, rfl⟩ := List.mem_map.mp ht
        exact hdone
      · exact hstays t.1 (hi.tried_done t ht)
    · rw [extras, tried, List.append_assoc]
      exact (among.map _).append hi.asked

section
variable (g : Graph) (user : UserMapping)

theorem ImportedOnce.congr {w w' : World} {tried : List (ItemKey × ℕ)} (h : ImportedOnce w tried)
    (hlog : primaryImports w'.log = primaryImports w.log)
    (hextras : extraImports w'.log = extraImports w.log)
    (hrows : w'.db.getItemState = w.db.getItemState) : ImportedOnce w' tried := by
  have hdone : ∀ k, w'.db.isDone k = w.db.isDone k := by
    intro k
    rw [Db.isDone_eq, Db.isDone_eq, hrows]
  exact ⟨hlog ▸ h.imports, fun k hk => (hdone k).trans (h.imports_done k (hlog ▸ hk)), h.tried,
    fun t ht => (hdone t.1).trans (h.tried_done t ht), hextras ▸ h.asked⟩

theorem MailState.pass_importedOnce (s : MailState) (p : MailPass)
    (h : ImportedOnce s.world s.tried) :
    ImportedOnce (s.pass g user p).world (s.pass g user p).tried := by
  have hopen : ImportedOnce (g.after s.world (.getUser user.destId)) s.tried :=
    h.congr (sameRows_after rfl rfl).imports (sameRows_after rfl rfl).extras rfl
  simp only [MailState.pass]
  obtain ⟨hworld, -, htried⟩ | ⟨since, -, st, hst, htried, hlog, hrows, -⟩ :=
    runMail_cases g user p.importMode p.mode p.source s.world
  · rw [hworld, htried]
    exact hopen
  · have hloop : ImportedOnce st.world (st.tried ++ s.tried) := by
      rw [hst]
      apply List.foldlRecOn (p.source since).items (processMessage g user p.importMode)
        (motive := fun st => ImportedOnce st.world (st.tried ++ s.tried))
      · exact hopen
      · intro st' hst' msg _
        exact (processMessage_step g user p.importMode st' msg).importedOnce hst'
    rw [htried]
    exact hloop.congr (by rw [hlog]) (by rw [hlog]) hrows

/-- A row that is done keeps all its values through a pass. -/
theorem MailState.pass_done_stays (s : MailState) (p : MailPass) (k : ItemKey)
    (hk : s.world.db.isDone k = true) :
    (s.pass g user p).world.db.getItemState k = s.world.db.getItemState k := by
  simp only [MailState.pass]
  obtain ⟨hworld, -, -⟩ | ⟨since, -, st, hst, -, -, hrows, -⟩ :=
    runMail_cases g user p.importMode p.mode p.source s.world
  · rw [hworld]
    rfl
  · have hloop : st.world.db.getItemState k = s.world.db.getItemState k ∧
        st.world.db.isDone k = true := by
      rw [hst]
      apply List.foldlRecOn (p.source since).items (processMessage g user p.importMode)
        (motive := fun st => st.world.db.getItemState k = s.world.db.getItemState k ∧
          st.world.db.isDone k = true)
      · exact ⟨rfl, hk⟩
      · intro st' hst' msg _
        have hstep := processMessage_step g user p.importMode st' msg
        exact ⟨(hstep.done_stays hst'.2).trans hst'.1, hstep.isDone_stays hst'.2⟩
    rw [hrows]
    exact hloop.1

theorem mailHistory_done_stays (later : List MailPass) (s : MailState) (k : ItemKey)
    (hk : s.world.db.isDone k = true) :
    (later.foldl (MailState.pass g user) s).world.db.getItemState k =
      s.world.db.getItemState k := by
  apply List.foldlRecOn later (MailState.pass g user)
    (motive := fun s' => s'.world.db.getItemState k = s.world.db.getItemState k)
  · rfl
  · intro s' hs' p _
    have hdone : s'.world.db.isDone k = true := by
      rw [Db.isDone_eq, hs', ← Db.isDone_eq]
      exact hk
    exact (s'.pass_done_stays g user p k hdone).trans hs'

end

/-- After any history no message was imported twice as its primary copy, no further copy of one was
tried twice, the server was asked for no import of a further copy but where it was tried, and so
never twice for one, and a row that is done keeps its dest_id whatever comes later. -/
theorem mail_imported_once (g : Graph) (user : UserMapping) (history : List MailPass) :
    (primaryImports (mailHistory g user history).world.log).Nodup ∧
    (mailHistory g user history).tried.Nodup ∧
    (extraImports (mailHistory g user history).world.log).Sublist
      (mailHistory g user history).tried ∧
    (extraImports (mailHistory g user history).world.log).Nodup ∧
    ∀ (later : List MailPass) (sourceId : String) (row : ItemValues),
      (mailHistory g user history).world.db.getItemState (messageKey user sourceId) = some row →
      row.status = .done →
      (mailHistory g user (history ++ later)).world.db.getItemState (messageKey user sourceId) =
        some row := by
  have honce : ImportedOnce (mailHistory g user history).world
      (mailHistory g user history).tried := by
    apply List.foldlRecOn history (MailState.pass g user)
      (motive := fun s => ImportedOnce s.world s.tried)
    · exact ⟨List.nodup_nil, fun _ h => absurd h List.not_mem_nil, List.nodup_nil,
        fun _ h => absurd h List.not_mem_nil, List.Sublist.refl _⟩
    · intro s hs p _
      exact s.pass_importedOnce g user p hs
  refine ⟨honce.imports, honce.tried, honce.asked, honce.asked.nodup honce.tried,
    fun later sourceId row hrow hdone => ?_⟩
  have hk : (mailHistory g user history).world.db.isDone (messageKey user sourceId) = true := by
    rw [Db.isDone_eq, hrow]
    simp [hdone]
  rw [mailHistory, List.foldl_append]
  exact (mailHistory_done_stays g user later _ _ hk).trans hrow

end GwsMigrator
