import GwsMigrator.MailOnce
import GwsMigrator.GuardedRuns
import GwsMigrator.ScriptedGraph

/-! Messages against the mail cursor: what arrived before the stored cursor was captured
is done, whatever the passes failed on and however they ended. -/
namespace GwsMigrator

/-- The state store with the mailbox it reads: the messages in order of arrival, and how
many of them were there when the stored cursor was captured. -/
structure MailboxState where
  world : World := {}
  arrived : List String := []
  cursorAt : ℕ := 0

/-- A message arrives, or a pass runs: the cursor it offers was captured when `captured`
messages were there, and `during` arrive while it runs. -/
inductive MailMove where
  | arrive (sourceId : String)
  | pass (p : MailPass) (captured : ℕ) (during : List String)

section
variable (g : Graph) (user : UserMapping)

def MailboxState.move (s : MailboxState) : MailMove → MailboxState
  | .arrive sourceId => { s with arrived := s.arrived ++ [sourceId] }
  | .pass p captured during =>
    let r := runMail g user p.importMode p.mode p.source s.world
    { world := r.world
      arrived := s.arrived ++ during
      cursorAt := if r.saved = [] then s.cursorAt else captured }

/-- The messages an enumeration has to yield: all that are present, or those that arrived
after the stored cursor was captured. -/
def MailboxState.due (s : MailboxState) : Option Token → List String
  | none => s.arrived
  | some _ => s.arrived.drop s.cursorAt

/-- What is assumed of the source: an enumeration that ends by itself yields what is due,
and its cursor was captured before. -/
def SourceComplete (s : MailboxState) : MailMove → Prop
  | .arrive _ => True
  | .pass p captured _ => captured ≤ s.arrived.length ∧
      ∀ since, startFrom p.mode (s.world.db.getCursor ⟨user.sourceId, "mail"⟩) = some since →
        (p.source since).raised = none →
        ∀ sourceId ∈ s.due since, ∃ msg ∈ (p.source since).items, msg.sourceId = sourceId

/-- Every message that was there when the stored cursor was captured is done. -/
structure CursorBehindDone (s : MailboxState) : Prop where
  inside : s.cursorAt ≤ s.arrived.length
  done : (s.world.db.getCursor ⟨user.sourceId, "mail"⟩).isSome = true →
    ∀ sourceId ∈ s.arrived.take s.cursorAt,
      s.world.db.isDone (messageKey user sourceId) = true

variable {g user}

theorem MessageStep.counts {k : ItemKey} {st st' : MailLoop} (h : MessageStep k st st') :
    st.failures ≤ st'.failures ∧ (st'.world.db.isDone k = true ∨ 0 < st'.failures) := by
  cases h with
  | skipped done same =>
    rw [same]
    exact ⟨le_refl _, Or.inl done⟩
  | failed notDone v status rows cursors imports failures tried =>
    refine ⟨by omega, Or.inr (by omega)⟩
  | imported notDone v status rows cursors imports failures slots distinct tried =>
    refine ⟨by omega, Or.inl ?_⟩
    rw [isDone_of_rows rows, if_pos rfl, status]
    rfl

theorem MessageStep.getCursor {k : ItemKey} {st st' : MailLoop} (h : MessageStep k st st') :
    st'.world.db.getCursor = st.world.db.getCursor := by
  cases h with
  | skipped done same => rw [same]
  | failed notDone v status rows cursors => exact cursors
  | imported notDone v status rows cursors => exact cursors

/-- Every message of the feed is done at the end of the loop, or a failure was counted. -/
theorem processMessages_done (importMode : ImportMode) (items : List SourceMessage)
    (st : MailLoop) (msg : SourceMessage) (hmsg : msg ∈ items)
    (h : (items.foldl (processMessage g user importMode) st).failures = 0) :
    (items.foldl (processMessage g user importMode) st).world.db.isDone
      (messageKey user msg.sourceId) = true := by
  -- done, or a failure counted: no later message of the feed undoes either
  have hrest : ∀ (items : List SourceMessage) (st : MailLoop),
      (st.world.db.isDone (messageKey user msg.sourceId) = true ∨ 0 < st.failures) →
      (items.foldl (processMessage g user importMode) st).world.db.isDone
          (messageKey user msg.sourceId) = true ∨
        0 < (items.foldl (processMessage g user importMode) st).failures := by
    intro items st hst
    apply List.foldlRecOn items (processMessage g user importMode)
      (motive := fun st => st.world.db.isDone (messageKey user msg.sourceId) = true ∨
        0 < st.failures) hst
    intro st' hst' msg' _
    have hstep := processMessage_step g user importMode st' msg'
    rcases hst' with hdone | hfail
    · exact Or.inl (hstep.isDone_stays hdone)
    · exact Or.inr (lt_of_lt_of_le hfail hstep.counts.1)
  have hall : ∀ (items : List SourceMessage) (st : MailLoop), msg ∈ items →
      (items.foldl (processMessage g user importMode) st).world.db.isDone
          (messageKey user msg.sourceId) = true ∨
        0 < (items.foldl (processMessage g user importMode) st).failures := by
    intro items
    induction items with
    | nil => exact fun _ hm => absurd hm List.not_mem_nil
    | cons msg' items ih =>
      intro st hm
      rcases List.mem_cons.mp hm with rfl | hm
      · exact hrest items _ (processMessage_step g user importMode st msg).counts.2
      · exact ih _ hm
  rcases hall items st hmsg with hdone | hfail
  · exact hdone
  · omega

theorem processMessages_getCursor (importMode : ImportMode) (items : List SourceMessage)
    (st : MailLoop) : (items.foldl (processMessage g user importMode) st).world.db.getCursor =
      st.world.db.getCursor := by
  apply List.foldlRecOn items (processMessage g user importMode)
    (motive := fun st' => st'.world.db.getCursor = st.world.db.getCursor)
  · rfl
  · intro st' hst' msg _
    exact (processMessage_step g user importMode st' msg).getCursor.trans hst'

/-- A pass takes back nothing that is done. -/
theorem runMail_isDone_stays (p : MailPass) {w : World} {k : ItemKey}
    (hk : w.db.isDone k = true) :
    (runMail g user p.importMode p.mode p.source w).world.db.isDone k = true := by
  have hpass := MailState.pass_done_stays g user ⟨w, []⟩ p k hk
  rw [Db.isDone_eq]
  rw [Db.isDone_eq] at hk
  exact (congrArg _ hpass).trans hk

/-- Only a pass that found a cursor enumerates from one. -/
theorem isSome_of_startFrom {mode : Mode} {stored : Option Token} {c : Token}
    (h : startFrom mode stored = some (some c)) : stored.isSome = true := by
  cases mode with
  | full => exact absurd h (by simp [startFrom])
  | delta =>
    cases stored with
    | none => exact absurd h (by simp [startFrom])
    | some c => rfl

/-- What was due is done and what was done stays done, so all that is there is done. -/
theorem CursorBehindDone.arrived_done {s : MailboxState} {since : Option Token} {mode : Mode}
    {db : Db} (h : CursorBehindDone user s)
    (hsince : startFrom mode (s.world.db.getCursor ⟨user.sourceId, "mail"⟩) = some since)
    (hstays : ∀ k, s.world.db.isDone k = true → db.isDone k = true)
    (hdue : ∀ id ∈ s.due since, db.isDone (messageKey user id) = true) :
    ∀ id ∈ s.arrived, db.isDone (messageKey user id) = true := by
  intro id hid
  cases since with
  | none => exact hdue id hid
  | some c =>
    -- a delta pass: what arrived before its cursor was done already
    have hc := isSome_of_startFrom hsince
    rw [← List.take_append_drop s.cursorAt s.arrived] at hid
    rcases List.mem_append.mp hid with hid | hid
    · exact hstays _ (h.done hc id hid)
    · exact hdue id hid

theorem MailboxState.move_cursorBehindDone (s : MailboxState) (m : MailMove)
    (h : CursorBehindDone user s) (hm : SourceComplete user s m) :
    CursorBehindDone user (s.move g user m) := by
  cases m with
  | arrive sourceId =>
    refine ⟨?_, fun hc id hid => h.done hc id ?_⟩
    · have hin := h.inside
      simp only [MailboxState.move, List.length_append]
      omega
    · simpa only [MailboxState.move, List.take_append_of_le_length h.inside] using hid
  | pass p captured during =>
    obtain ⟨hcap, hdue⟩ := hm
    have hin := h.inside
    simp only [MailboxState.move]
    obtain ⟨hworld, hsaved, -⟩ | ⟨since, hsince, st, hst, -, -, hrows, hend⟩ :=
      runMail_cases g user p.importMode p.mode p.source s.world
    · -- the pass stopped before its loop
      rw [hsaved, if_pos rfl, hworld]
      refine ⟨by simp only [List.length_append]; omega, fun hc id hid => ?_⟩
      rw [List.take_append_of_le_length hin] at hid
      exact h.done hc id hid
    · have hstays : ∀ k, s.world.db.isDone k = true →
          (runMail g user p.importMode p.mode p.source s.world).world.db.isDone k = true :=
        fun k hk => runMail_isDone_stays p hk
      rcases hend with ⟨hsaved, hcur⟩ | ⟨hsaved, hfail, hraised⟩
      · -- no cursor saved: the old one stands, and what was done stays done
        rw [hsaved, if_pos rfl]
        refine ⟨by simp only [List.length_append]; omega, fun hc id hid => ?_⟩
        rw [List.take_append_of_le_length hin] at hid
        rw [hcur, hst, processMessages_getCursor, Graph.getCursor_after] at hc
        exact hstays _ (h.done hc id hid)
      · -- a cursor saved: nothing failed, so everything due is done
        rw [if_neg hsaved]
        refine ⟨by simp only [List.length_append]; omega, fun _ id hid => ?_⟩
        rw [List.take_append_of_le_length hcap] at hid
        refine h.arrived_done hsince hstays (fun id hid => ?_) id (List.mem_of_mem_take hid)
        obtain ⟨msg, hmsg, rfl⟩ := hdue since hsince hraised id hid
        rw [Db.isDone_eq, hrows, ← Db.isDone_eq]
        rw [hst] at hfail ⊢
        exact processMessages_done p.importMode (p.source since).items _ msg hmsg hfail

end

/-- In every reachable state, what arrived before the stored cursor was captured is done,
and so whatever is not done is due in the next delta pass. -/
theorem mail_cursor_behind_done (g : Graph) (user : UserMapping) (moves : List MailMove)
    (hsource : Runs.Guarded (MailboxState.move g user) (SourceComplete user) {} moves) :
    let s := moves.foldl (MailboxState.move g user) {}
    ∀ c, s.world.db.getCursor ⟨user.sourceId, "mail"⟩ = some c →
      (∀ sourceId ∈ s.arrived.take s.cursorAt,
        s.world.db.isDone (messageKey user sourceId) = true) ∧
      ∀ sourceId ∈ s.arrived, s.world.db.isDone (messageKey user sourceId) = false →
        sourceId ∈ s.due (some c) := by
  intro s c hc
  have hs : CursorBehindDone user s :=
    Runs.guarded_run_invariant (MailboxState.move g user) (CursorBehindDone user) _
      (fun s m h hm => s.move_cursorBehindDone m h hm) _ _
      ⟨le_refl _, fun h => absurd h (by simp [Db.getCursor])⟩ hsource
  have hdone := hs.done (by rw [hc]; rfl)
  refine ⟨hdone, fun sourceId hid hnot => ?_⟩
  rw [← List.take_append_drop s.cursorAt s.arrived] at hid
  rcases List.mem_append.mp hid with hid | hid
  · rw [hdone sourceId hid] at hnot
    exact absurd hnot (by simp)
  · exact hid

/-- A message arrives and a full pass seeds the cursor; a second message arrives and a delta
pass fails on it. -/
def failedDelta : List MailMove :=
  [.arrive "m1",
   .pass ⟨.full, .json, fun _ => { items := [{ sourceId := "m1" }],
                                   lastCursor := some firstCursor }⟩ 1 [],
   .arrive "m2",
   .pass ⟨.delta, .json, fun _ => { items := [{ sourceId := "m2" }],
                                    lastCursor := some secondCursor }⟩ 2 []]

/-- After it the old cursor stands, and the failed message is due again. -/
theorem mail_cursor_after_failedDelta :
    let g := scriptedGraph (fun _ c => match c with
      | .importMessage k _ _ _ _ => if k.sourceId = "m2" then some (.http 400 "bad") else none
      | _ => none)
    let user : UserMapping := ⟨"a@source", "a@dest"⟩
    let s := failedDelta.foldl (MailboxState.move g user) {}
    s.world.db.getCursor ⟨user.sourceId, "mail"⟩ = some ⟨"t1", by decide⟩ ∧
      "m2" ∈ s.due (some ⟨"t1", by decide⟩) := by
  intro g user s
  have hcursor : s.world.db.getCursor ⟨user.sourceId, "mail"⟩ = some ⟨"t1", by decide⟩ := by
    decide
  have hsource : Runs.Guarded (MailboxState.move g user) (SourceComplete user) {} failedDelta := by
    refine ⟨trivial, ⟨by decide, fun since _ _ id hid => ?_⟩, trivial,
      ⟨by decide, fun since hsince _ id hid => ?_⟩, trivial⟩
    · refine ⟨_, List.mem_singleton_self _, ?_⟩
      cases since <;> exact (List.mem_singleton.mp hid).symm
    · refine ⟨_, List.mem_singleton_self _, ?_⟩
      cases since with
      | none => exact absurd hsince (by decide)
      | some c => exact (List.mem_singleton.mp hid).symm
  have hdue := (mail_cursor_behind_done g user failedDelta hsource _ hcursor).2 "m2"
    (by decide) (by decide)
  exact ⟨hcursor, hdue⟩

end GwsMigrator
