import GwsMigrator.MailCursor

/-! A mail source as the passes of `run_mail` need it: which messages a cursor leaves behind, and
what an enumeration that ends by itself has yielded. Whatever is behind the stored cursor is done. -/
namespace GwsMigrator

/-- An enumeration from a cursor is one from the stored cursor. -/
theorem stored_of_startFrom {mode : Mode} {stored : Option Token} {c : Token}
    (h : startFrom mode stored = some (some c)) : stored = some c := by
  cases mode with
  | full => cases h
  | delta =>
    cases stored with
    | none => cases h
    | some c' => exact Option.some.inj h

/-- What a pass does to the cursor: it leaves it, or it saves the one that the source offers, when
the enumeration has ended by itself and every message of it is done. -/
theorem runMail_cursor (g : Graph) (user : UserMapping) (importMode : ImportMode) (mode : Mode)
    (source : Option Token → Enumeration SourceMessage) (w : World) :
    let r := runMail g user importMode mode source w
    r.world.db.getCursor ⟨user.sourceId, "mail"⟩ = w.db.getCursor ⟨user.sourceId, "mail"⟩ ∨
    ∃ since c, startFrom mode (w.db.getCursor ⟨user.sourceId, "mail"⟩) = some since ∧
      (source since).raised = none ∧ (source since).lastCursor = some c ∧
      r.world.db.getCursor ⟨user.sourceId, "mail"⟩ = some c ∧
      ∀ msg ∈ (source since).items,
        r.world.db.isDone (messageKey user msg.sourceId) = true := by
  intro r
  simp only [r, runMail]
  cases g.ask w (.getUser user.destId) with
  | error e => exact Or.inl rfl
  | ok id =>
    simp only [Graph.getCursor_after]
    cases hs : startFrom mode (w.db.getCursor ⟨user.sourceId, "mail"⟩) with
    | none => exact Or.inl rfl
    | some since =>
      simp only [migrateMail]
      have hloop := @processMessages_getCursor g user importMode
        (source since).items { world := g.after w (.getUser user.destId) }
      by_cases hraised : (source since).raised.isSome = true
      · rw [if_pos hraised]
        left
        simp only [hloop, Graph.getCursor_after]
      · rw [if_neg hraised]
        simp only
        set st := (source since).items.foldl (processMessage g user importMode)
          { world := g.after w (.getUser user.destId) } with hst
        set r₀ : JobResult :=
          { world := st.world, failures := st.failures, raised := (source since).raised }
        obtain ⟨c, hc, hfail, -, hcur⟩ | ⟨-, hsame⟩ := advanceCursor_cases r₀
          ⟨user.sourceId, "mail"⟩ st.failures (source since).lastCursor
        · refine Or.inr ⟨since, c, rfl, by simpa using hraised, hc, hcur, fun msg hmsg => ?_⟩
          rw [Db.isDone_eq, advanceCursor_getItemState, ← Db.isDone_eq]
          exact processMessages_done importMode (source since).items _ msg hmsg hfail
        · left
          rw [hsame]
          simp only [r₀, hloop, Graph.getCursor_after]

/-- A mailbox with states `σ`. `arrived` is about the messages that stay in it, `covered` about
those of them that a cursor leaves behind, and an issued cursor leaves no more behind later. -/
structure MailFeed (σ : Type) where
  fetches : Option Token → σ → Enumeration SourceMessage → σ → Prop
  moves : σ → σ → Prop
  arrived : σ → String → Prop
  issued : σ → Token → Prop
  covered : σ → Token → String → Prop
  fetches_moves : ∀ {since s e s'}, fetches since s e s' → moves s s'
  issued_moves : ∀ {s s' c}, moves s s' → issued s c → issued s' c
  covered_moves : ∀ {s s' c id}, moves s s' → issued s c → covered s' c id → covered s c id
  issues : ∀ {since s e s' c}, fetches since s e s' → e.lastCursor = some c → issued s' c
  complete : ∀ {since s e s' c' id}, fetches since s e s' → (∀ c, since = some c → issued s c) →
    e.raised = none → e.lastCursor = some c' → covered s' c' id →
    (∃ c, since = some c ∧ covered s c id) ∨ ∃ msg ∈ e.items, msg.sourceId = id
  due : ∀ {c s e s' id}, fetches (some c) s e s' → issued s c → e.raised = none →
    arrived s id → ¬ covered s c id → ∃ msg ∈ e.items, msg.sourceId = id

namespace MailFeed

variable {σ : Type} (feed : MailFeed σ) (g : Graph) (user : UserMapping)

/-- What the store and the mailbox come to: the mailbox moves on, or a pass runs, during which it
moves on too. -/
inductive Reached : World → σ → Prop
  | start (s : σ) : Reached {} s
  | moved {w : World} {s s' : σ} (before : Reached w s) (moves : feed.moves s s') : Reached w s'
  | passed {w : World} {s s' : σ} (before : Reached w s) (p : MailPass)
      (fetched : ∀ since,
        startFrom p.mode (w.db.getCursor ⟨user.sourceId, "mail"⟩) = some since →
        feed.fetches since s (p.source since) s')
      (moves : feed.moves s s') :
      Reached (runMail g user p.importMode p.mode p.source w).world s'

/-- The stored cursor was issued, and what it leaves behind is done. -/
def BehindDone (w : World) (s : σ) : Prop :=
  ∀ c, w.db.getCursor ⟨user.sourceId, "mail"⟩ = some c →
    feed.issued s c ∧ ∀ id, feed.covered s c id → w.db.isDone (messageKey user id) = true

variable {feed g user}

theorem BehindDone.moved {w : World} {s s' : σ} (h : feed.BehindDone user w s)
    (hmoves : feed.moves s s') : feed.BehindDone user w s' := by
  intro c hc
  obtain ⟨hissued, hdone⟩ := h c hc
  exact ⟨feed.issued_moves hmoves hissued,
    fun id hid => hdone id (feed.covered_moves hmoves hissued hid)⟩

theorem BehindDone.passed {w : World} {s s' : σ} (h : feed.BehindDone user w s) (p : MailPass)
    (hfetched : ∀ since,
      startFrom p.mode (w.db.getCursor ⟨user.sourceId, "mail"⟩) = some since →
      feed.fetches since s (p.source since) s')
    (hmoves : feed.moves s s') :
    feed.BehindDone user (runMail g user p.importMode p.mode p.source w).world s' := by
  have hstays : ∀ k, w.db.isDone k = true →
      (runMail g user p.importMode p.mode p.source w).world.db.isDone k = true :=
    fun k hk => runMail_isDone_stays p hk
  intro c hc
  rcases runMail_cursor g user p.importMode p.mode p.source w with
    hsame | ⟨since, c', hsince, hraised, hlast, hcur, hdone⟩
  · -- the old cursor stands
    obtain ⟨hissued, hbehind⟩ := (h.moved hmoves) c (hsame ▸ hc)
    exact ⟨hissued, fun id hid => hstays _ (hbehind id hid)⟩
  · obtain rfl : c = c' := Option.some.inj (hc.symm.trans hcur)
    have hfetch := hfetched since hsince
    have hstored : ∀ c₀, since = some c₀ →
        w.db.getCursor ⟨user.sourceId, "mail"⟩ = some c₀ := by
      rintro c₀ rfl
      exact stored_of_startFrom hsince
    refine ⟨feed.issues hfetch hlast, fun id hid => ?_⟩
    rcases feed.complete hfetch (fun c₀ h₀ => (h c₀ (hstored c₀ h₀)).1) hraised hlast hid with
      ⟨c₀, h₀, hold⟩ | ⟨msg, hmsg, rfl⟩
    · exact hstays _ ((h c₀ (hstored c₀ h₀)).2 id hold)
    · exact hdone msg hmsg

/-- Whatever passes have run and however they ended, what the stored cursor leaves behind is done,
so that a delta pass which ends by itself yields every message that is not. -/
theorem Reached.nothing_lost {w : World} {s : σ} (h : feed.Reached g user w s) :
    ∀ c, w.db.getCursor ⟨user.sourceId, "mail"⟩ = some c →
      (∀ id, feed.covered s c id → w.db.isDone (messageKey user id) = true) ∧
      ∀ e s', feed.fetches (some c) s e s' → e.raised = none →
        ∀ id, feed.arrived s id → w.db.isDone (messageKey user id) = false →
          ∃ msg ∈ e.items, msg.sourceId = id := by
  have hbehind : feed.BehindDone user w s := by
    induction h with
    | start s => exact fun c hc => absurd hc (by simp [Db.getCursor])
    | moved before moves ih => exact ih.moved moves
    | passed before p fetched moves ih => exact ih.passed p fetched moves
  intro c hc
  obtain ⟨hissued, hdone⟩ := hbehind c hc
  refine ⟨hdone, fun e s' hfetch hraised id hid hnot => ?_⟩
  refine feed.due hfetch hissued hraised hid (fun hcovered => ?_)
  rw [hdone id hcovered] at hnot
  cases hnot

end MailFeed

end GwsMigrator
