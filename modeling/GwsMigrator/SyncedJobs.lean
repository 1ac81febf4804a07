import GwsMigrator.ChangeFeed
import GwsMigrator.GraphCalls
import GwsMigrator.GuardedRuns

/-! The rows and the cursor of a job against the change log of its source: what a step does
to them, what a pass does, and when nothing is behind the cursor. -/
namespace GwsMigrator
open ChangeFeed

/-- The items of one workload key: what a done row records of a version, which versions have to
be at the destination, and which a full pass skips once their row is done. -/
structure Workload (α : Type) where
  name : String
  sourceId : α → String
  marker : α → Option String
  live : α → Prop
  skipsDone : α → Prop

/-- The hash in the row of an item, if the row is done. -/
def Db.applied (db : Db) (k : ItemKey) : Option (Option String) :=
  (db.getItemState k).bind (fun s => if s.status = .done then some s.sourceHash else none)

theorem Db.applied_eq_some {db : Db} {k : ItemKey} {hash : Option String} :
    db.applied k = some hash ↔
      ∃ s, db.getItemState k = some s ∧ s.status = .done ∧ s.sourceHash = hash := by
  unfold Db.applied
  cases db.getItemState k with
  | none => simp
  | some s => by_cases h : s.status = .done <;> simp [h]

theorem Db.applied_isSome {db : Db} {k : ItemKey} :
    (db.applied k).isSome = true ↔ db.isDone k = true := by
  rw [Db.applied, Db.isDone_eq]
  cases db.getItemState k with
  | none => simp
  | some s => by_cases h : s.status = .done <;> simp [h]

theorem Db.applied_congr {db db' : Db} {k : ItemKey}
    (h : db'.getItemState k = db.getItemState k) : db'.applied k = db.applied k := by
  rw [Db.applied, h, Db.applied]

/-- The two states have the same rows and cursors. -/
structure SameStore (db db' : Db) : Prop where
  rows : db'.getItemState = db.getItemState
  cursors : db'.getCursor = db.getCursor

/-- The row of `k` was written, and nothing else. -/
structure RowWritten (k : ItemKey) (v : ItemValues) (db db' : Db) : Prop where
  rows : db'.getItemState = Function.update db.getItemState k (some v)
  cursors : db'.getCursor = db.getCursor

/-- Only the row of `k` may differ, and failures were only added. -/
structure RowStep (k : ItemKey) (db db' : Db) (n n' : ℕ) : Prop where
  rows : ∀ k', k' ≠ k → db'.getItemState k' = db.getItemState k'
  cursors : db'.getCursor = db.getCursor
  failures : n ≤ n'

namespace SameStore

variable {db₁ db₂ db₃ : Db}

theorem refl (db : Db) : SameStore db db := ⟨rfl, rfl⟩

theorem trans (h : SameStore db₁ db₂) (h' : SameStore db₂ db₃) : SameStore db₁ db₃ :=
  ⟨h'.rows.trans h.rows, h'.cursors.trans h.cursors⟩

theorem after (g : Graph) (w : World) (c : Call) : SameStore w.db (g.after w c).db := ⟨rfl, rfl⟩

theorem rowStep (h : SameStore db₁ db₂) (k : ItemKey) (n : ℕ) : RowStep k db₁ db₂ n n :=
  ⟨fun k' _ => congrFun h.rows k', h.cursors, Nat.le_refl n⟩

theorem upsert (h : SameStore db₁ db₂) (k : ItemKey) (v : ItemValues) :
    RowWritten k v db₁ (db₂.upsertItem k v) := by
  refine ⟨?_, h.cursors⟩
  rw [Db.rows_upsertItem, h.rows]

end SameStore

namespace RowWritten

variable {k : ItemKey} {v : ItemValues} {db db₁ db' : Db} {n n' : ℕ}

theorem then_same (h : RowWritten k v db db₁) (h' : SameStore db₁ db') : RowWritten k v db db' :=
  ⟨h'.rows.trans h.rows, h'.cursors.trans h.cursors⟩

theorem rowStep (h : RowWritten k v db db') (hn : n ≤ n') : RowStep k db db' n n' := by
  refine ⟨fun k' hk => ?_, h.cursors, hn⟩
  rw [h.rows, Function.update_of_ne hk]

theorem applied (h : RowWritten k v db db') (hv : v.status = .done) :
    db'.applied k = some v.sourceHash := by
  rw [Db.applied_eq_some]
  refine ⟨v, ?_, hv, rfl⟩
  rw [h.rows, Function.update_self]

end RowWritten

section
variable {α : Type} (wl : Workload α) (user : UserMapping)

def Workload.key (id : String) : ItemKey := ⟨user.sourceId, wl.name, id⟩

def Workload.cursorKey : CursorKey := ⟨user.sourceId, wl.name⟩

/-- The version of each item that its row says is at the destination. -/
def Workload.applied (db : Db) (id : String) : Option (Option String) := db.applied (wl.key user id)

/-- If the item is done and a full pass would skip it then it is done in this version. -/
def FreshAt (db : Db) (x : α) : Prop :=
  wl.skipsDone x → ∀ hash ∈ wl.applied user db (wl.sourceId x), hash = wl.marker x

/-- One live item of a pass: a full pass skipped it as done, in whatever version, or its version
was applied or a failure counted. What is applied in this version a full pass leaves so. -/
structure Settles (full : Prop) (x : α) (db db' : Db) (n n' : ℕ) : Prop where
  outcome : (full ∧ wl.skipsDone x ∧ (wl.applied user db (wl.sourceId x)).isSome) ∨ n < n' ∨
    wl.applied user db' (wl.sourceId x) = some (wl.marker x)
  skipped : full → wl.skipsDone x → (wl.applied user db (wl.sourceId x)).isSome →
    wl.applied user db' (wl.sourceId x) = wl.applied user db (wl.sourceId x)
  kept : full → wl.applied user db (wl.sourceId x) = some (wl.marker x) →
    wl.applied user db' (wl.sourceId x) = some (wl.marker x)

/-- The items of a feed, one after the other. -/
structure Passed (full : Prop) (items : List α) (db db' : Db) (n : ℕ) : Prop where
  rows : ∀ k, k ∉ items.map (fun x => wl.key user (wl.sourceId x)) →
    db'.getItemState k = db.getItemState k
  cursors : db'.getCursor = db.getCursor
  settled : ∀ x ∈ items, wl.live x → Settles wl user full x db db' 0 n

variable {wl user} {full : Prop} {items : List α}

theorem Workload.key_inj {id id' : String} : wl.key user id = wl.key user id' ↔ id = id' := by
  simp [Workload.key]

theorem Workload.applied_of_rows {db db' : Db} (h : db'.getItemState = db.getItemState) :
    wl.applied user db' = wl.applied user db := by
  funext id
  exact Db.applied_congr (congrFun h _)

theorem RowStep.applied {db db' : Db} {id id' : String} {n n' : ℕ}
    (h : RowStep (wl.key user id) db db' n n') (hne : id' ≠ id) :
    wl.applied user db' id' = wl.applied user db id' :=
  Db.applied_congr (h.rows _ (fun he => hne (Workload.key_inj.mp he)))

/-- What the rows say before and after is all that counts. -/
theorem Settles.congr {x : α} {db₁ db₁' db₂ db₂' : Db} {n₁ n₁' n₂ n₂' : ℕ}
    (h : Settles wl user full x db₁ db₁' n₁ n₁')
    (hbefore : wl.applied user db₂ (wl.sourceId x) = wl.applied user db₁ (wl.sourceId x))
    (hafter : wl.applied user db₂' (wl.sourceId x) = wl.applied user db₁' (wl.sourceId x))
    (hn : n₁ < n₁' → n₂ < n₂') : Settles wl user full x db₂ db₂' n₂ n₂' := by
  refine ⟨?_, ?_, ?_⟩
  · rw [hbefore, hafter]
    exact h.outcome.imp id (Or.imp hn id)
  · rw [hbefore, hafter]
    exact h.skipped
  · rw [hbefore, hafter]
    exact h.kept

/-- A full pass skips an item that is done. -/
theorem Settles.of_skipped {x : α} {db db' : Db} {n n' : ℕ} (hfull : full)
    (hskips : wl.skipsDone x) (hdone : (wl.applied user db (wl.sourceId x)).isSome)
    (hsame : wl.applied user db' (wl.sourceId x) = wl.applied user db (wl.sourceId x)) :
    Settles wl user full x db db' n n' :=
  ⟨Or.inl ⟨hfull, hskips, hdone⟩, fun _ _ _ => hsame, fun _ h => hsame.trans h⟩

/-- An item that is not done, or is met by a delta pass. -/
theorem Settles.of_open {x : α} {db db' : Db} {n n' : ℕ}
    (hopen : full → wl.applied user db (wl.sourceId x) = none)
    (houtcome : n < n' ∨ wl.applied user db' (wl.sourceId x) = some (wl.marker x)) :
    Settles wl user full x db db' n n' := by
  refine ⟨Or.inr houtcome, fun hfull _ hdone => ?_, fun hfull happlied => ?_⟩
  · rw [hopen hfull] at hdone
    exact absurd hdone (by simp)
  · rw [hopen hfull] at happlied
    exact absurd happlied (by simp)

variable (wl user full) in
/-- A step that settles its item and leaves the others alone settles a feed. -/
theorem Passed.of_steps {σ : Type} (db : σ → Db) (failures : σ → ℕ) (step : σ → α → σ)
    (hnodup : (items.map wl.sourceId).Nodup) (s : σ)
    (hframe : ∀ s', ∀ x ∈ items, RowStep (wl.key user (wl.sourceId x)) (db s') (db (step s' x))
      (failures s') (failures (step s' x)))
    (hown : ∀ s', ∀ x ∈ items, wl.live x →
      Settles wl user full x (db s') (db (step s' x)) (failures s') (failures (step s' x))) :
    Passed wl user full items (db s) (db (items.foldl step s)) (failures (items.foldl step s)) := by
  -- the frame of the whole run
  have hrun : (∀ k, k ∉ items.map (fun x => wl.key user (wl.sourceId x)) →
      (db (items.foldl step s)).getItemState k = (db s).getItemState k) ∧
      (db (items.foldl step s)).getCursor = (db s).getCursor := by
    refine List.foldlRecOn items step (motive := fun s' =>
      (∀ k, k ∉ items.map (fun x => wl.key user (wl.sourceId x)) →
        (db s').getItemState k = (db s).getItemState k) ∧
      (db s').getCursor = (db s).getCursor) ⟨fun _ _ => rfl, rfl⟩ (fun s' hs x hx => ?_)
    obtain ⟨hrows, hcursors⟩ := hs
    have hstep := hframe s' x hx
    refine ⟨fun k hk => ?_, hstep.cursors.trans hcursors⟩
    rw [hstep.rows k (fun he => hk (he ▸ List.mem_map.mpr ⟨x, hx, rfl⟩))]
    exact hrows k hk
  refine ⟨hrun.1, hrun.2, ?_⟩
  -- the live items, settled one by one
  exact Runs.foldl_settles step wl.sourceId
    (fun s' x => wl.applied user (db s') (wl.sourceId x) = wl.applied user (db s) (wl.sourceId x))
    (fun s' x => wl.live x → Settles wl user full x (db s) (db s') 0 (failures s'))
    items hnodup
    (fun s' x hx hready hlive => (hown s' x hx hlive).congr hready.symm rfl (fun h => by omega))
    (fun s' x hx y hy hne hready => ((hframe s' x hx).applied (Ne.symm hne)).trans hready)
    (fun s' x hx y hy hne hset hlive => (hset hlive).congr rfl
      ((hframe s' x hx).applied (Ne.symm hne))
      (fun h => Nat.lt_of_lt_of_le h (hframe s' x hx).failures))
    s (fun _ _ => rfl)

/-- An empty feed applies nothing. -/
theorem Passed.applied_nil {db db' : Db} {n : ℕ} (h : Passed wl user full [] db db' n) :
    wl.applied user db' = wl.applied user db :=
  Workload.applied_of_rows (funext (fun k => h.rows k List.not_mem_nil))

/-- What is done to the rows of other items of the feed afterwards does not matter. -/
theorem Passed.then_others {db db₁ db' : Db} {n n' : ℕ}
    (h : Passed wl user full items db db₁ n) (hnodup : (items.map wl.sourceId).Nodup)
    (hrows : ∀ k, (∀ x ∈ items, ¬ wl.live x → k ≠ wl.key user (wl.sourceId x)) →
      db'.getItemState k = db₁.getItemState k)
    (hcursors : db'.getCursor = db₁.getCursor) (hn : n ≤ n') :
    Passed wl user full items db db' n' := by
  refine ⟨fun k hk => ?_, hcursors.trans h.cursors, fun x hx hlive => ?_⟩
  · rw [hrows k (fun x hx _ he => hk (he ▸ List.mem_map.mpr ⟨x, hx, rfl⟩))]
    exact h.rows k hk
  · refine (h.settled x hx hlive).congr rfl ?_ (fun hlt => Nat.lt_of_lt_of_le hlt hn)
    apply Db.applied_congr
    apply hrows
    intro y hy hylive hkey
    have hxy : x = y := List.inj_on_of_nodup_map hnodup hx hy (Workload.key_inj.mp hkey)
    exact hylive (hxy ▸ hlive)

/-- A feed whose live items are fresh, for a full pass, is applied unless a failure counted. -/
theorem Passed.applies {db db' : Db} {n : ℕ} (h : Passed wl user full items db db' n)
    (hfresh : full → ∀ x ∈ items, wl.live x → FreshAt wl user db x) :
    Applies wl.sourceId wl.marker wl.live full items (wl.applied user db) (wl.applied user db')
      (n = 0) := by
  refine ⟨fun id hid => ?_, fun hclean x hx hlive => ?_, fun hfull x hx hlive => ?_⟩
  · apply Db.applied_congr
    apply h.rows
    intro hmem
    obtain ⟨x, hx, hkey⟩ := List.mem_map.mp hmem
    exact hid (Workload.key_inj.mp hkey ▸ List.mem_map_of_mem hx)
  · have hset := h.settled x hx hlive
    rcases hset.outcome with ⟨hfull, hskips, hdone⟩ | hlt | happlied
    · obtain ⟨hash, hhash⟩ := Option.isSome_iff_exists.mp hdone
      rw [hset.skipped hfull hskips hdone, hhash, hfresh hfull x hx hlive hskips hash hhash]
    · omega
    · exact happlied
  · exact (h.settled x hx hlive).kept hfull

/-- Only some of the live items are fresh: these are applied unless a failure counted. -/
theorem Passed.applies_of {db db' : Db} {n : ℕ} (h : Passed wl user full items db db' n)
    (chosen : α → Prop)
    (hfresh : full → ∀ x ∈ items, wl.live x → chosen x → FreshAt wl user db x) :
    Applies wl.sourceId wl.marker (fun x => wl.live x ∧ chosen x) full items
      (wl.applied user db) (wl.applied user db') (n = 0) := by
  have hpass : Passed { wl with live := fun x => wl.live x ∧ chosen x } user full items db db' n :=
    ⟨h.rows, h.cursors, fun x hx hlive => by
      obtain ⟨houtcome, hskipped, hkept⟩ := h.settled x hx hlive.1
      exact ⟨houtcome, hskipped, hkept⟩⟩
  exact hpass.applies (fun hfull x hx hlive => hfresh hfull x hx hlive.1 hlive.2)

end

section
variable {α : Type} (wl : Workload α) (user : UserMapping) (tok : ℕ → Token)

/-- What `r` saved of the cursor a feed offers. -/
theorem advanceCursor_getCursor (r : JobResult) (k : CursorKey) (n : ℕ) (last : Option Token) :
    (advanceCursor r k n last).world.db.getCursor = r.world.db.getCursor ∨
    (n = 0 ∧ ∃ c, last = some c ∧ (advanceCursor r k n last).world.db.getCursor =
      Function.update r.world.db.getCursor k (some c)) := by
  cases last with
  | none => exact Or.inl rfl
  | some c =>
    by_cases hn : n = 0
    · refine Or.inr ⟨hn, c, rfl, ?_⟩
      funext k'
      simp only [advanceCursor, if_pos hn, Db.getCursor_saveCursor, Function.update_apply]
    · refine Or.inl ?_
      simp only [advanceCursor, if_neg hn]

/-- What a pass of a job does: it does not come to read the source, or it goes through the feed
it reads, and then may save the cursor if nothing failed. -/
inductive Ran (mode : Mode) (source : Option Token → Enumeration α) (db : Db) : Db → Prop
  | idle (db' : Db) (same : SameStore db db') : Ran mode source db db'
  | passed (since : Option Token) (n : ℕ) (db₁ db' : Db)
      (start : startFrom mode (db.getCursor (wl.cursorKey user)) = some since)
      (pass : Passed wl user (mode = .full) (source since).items db db₁ n)
      (rows : db'.getItemState = db₁.getItemState)
      (cursor : db'.getCursor = db₁.getCursor ∨
        (n = 0 ∧ (source since).raised = none ∧ ∃ c, (source since).lastCursor = some c ∧
          db'.getCursor = Function.update db₁.getCursor (wl.cursorKey user) (some c))) :
      Ran mode source db db'

/-- The source reads its log: from any position it yields current versions, and unless it raises
they are all that are live, and the cursor it offers is the end of the log. -/
def Reads (log : List α) (source : Option Token → Enumeration α) : Prop :=
  ∀ pos : Option ℕ, Feeds wl.sourceId log pos (source (pos.map tok)).items ∧
    ((source (pos.map tok)).raised = none →
      Whole wl.sourceId wl.live log pos (source (pos.map tok)).items ∧
      ∀ c ∈ (source (pos.map tok)).lastCursor, c = tok log.length)

/-- The stored cursor is a position in the log, and what is live and was not changed after it is
applied. -/
def Synced (log : List α) (db : Db) : Prop :=
  ∃ cursor : Option ℕ, db.getCursor (wl.cursorKey user) = cursor.map tok ∧
    UpToDate wl.sourceId wl.marker wl.live log cursor (wl.applied user db)

/-- The row of every live item whose latest change is not after the stored cursor is done, with
the hash of the current version. -/
def NothingBehind (log : List α) (db : Db) : Prop :=
  ∀ p, db.getCursor (wl.cursorKey user) = some (tok p) → ∀ x,
    latest wl.sourceId log (wl.sourceId x) = some x →
    changedAt wl.sourceId log (wl.sourceId x) ≤ p → wl.live x →
    ∃ row, db.getItemState (wl.key user (wl.sourceId x)) = some row ∧ row.status = .done ∧
      row.sourceHash = wl.marker x

/-- Of what a full pass would skip, no live item is done in an older version. -/
def Fresh (log : List α) (db : Db) : Prop :=
  ∀ x, latest wl.sourceId log (wl.sourceId x) = some x → wl.live x → FreshAt wl user db x

variable {wl user tok} {mode : Mode} {source : Option Token → Enumeration α} {log : List α}
variable {db db' : Db}

theorem Ran.after (h : SameStore db db') {db'' : Db} (hran : Ran wl user mode source db' db'') :
    Ran wl user mode source db db'' := by
  cases hran with
  | idle _ same => exact .idle _ (h.trans same)
  | passed since n db₁ _ start pass rows cursor =>
    rw [h.cursors] at start
    refine .passed since n db₁ _ start ⟨fun k hk => ?_, pass.cursors.trans h.cursors,
      fun x hx hlive => ?_⟩ rows cursor
    · rw [pass.rows k hk, h.rows]
    · exact (pass.settled x hx hlive).congr (Db.applied_congr (congrFun h.rows _)).symm rfl id

theorem advanceCursor_rows (r : JobResult) (k : CursorKey) (n : ℕ) (last : Option Token) :
    (advanceCursor r k n last).world.db.getItemState = r.world.db.getItemState := by
  funext k'
  exact advanceCursor_getItemState r k n last k'

/-- The end of a pass that goes through its feed. A source that raises leaves a failure behind
or the cursor alone. -/
theorem Ran.of_advance {r : JobResult} {since : Option Token} {n : ℕ} (h : SameStore db db')
    (start : startFrom mode (db'.getCursor (wl.cursorKey user)) = some since)
    (pass : Passed wl user (mode = .full) (source since).items db' r.world.db n)
    (hraised : n = 0 → (source since).raised = none) :
    Ran wl user mode source db
      (advanceCursor r (wl.cursorKey user) n (source since).lastCursor).world.db := by
  apply Ran.after h
  refine .passed since n _ _ start pass (advanceCursor_rows ..) ?_
  rcases advanceCursor_getCursor r (wl.cursorKey user) n (source since).lastCursor with
    hsame | ⟨hn, c, hlast, hsaved⟩
  · exact Or.inl hsame
  · exact Or.inr ⟨hn, hraised hn, c, hlast, hsaved⟩

/-- A pass begins at a position of the log: nowhere, or at the stored cursor. -/
theorem startFrom_position {stored : Option ℕ} {since : Option Token}
    (start : startFrom mode (stored.map tok) = some since) :
    ∃ pos : Option ℕ, since = pos.map tok ∧ ((pos = none ∧ mode = .full) ∨ pos = stored) := by
  cases mode with
  | full => exact ⟨none, (Option.some.inj start).symm, Or.inl ⟨rfl, rfl⟩⟩
  | delta =>
    cases stored with
    | none => exact absurd start (by simp [startFrom])
    | some p => exact ⟨some p, (Option.some.inj start).symm, Or.inr rfl⟩

theorem Synced.congr (h : Synced wl user tok log db)
    (hrows : ∀ id, db'.getItemState (wl.key user id) = db.getItemState (wl.key user id))
    (hcursor : db'.getCursor (wl.cursorKey user) = db.getCursor (wl.cursorKey user)) :
    Synced wl user tok log db' := by
  obtain ⟨cursor, hc, hup⟩ := h
  have happlied : wl.applied user db' = wl.applied user db := by
    funext id
    exact Db.applied_congr (hrows id)
  exact ⟨cursor, hcursor.trans hc, happlied ▸ hup⟩

/-- A pass of one job does not concern the rows and cursors of the others. -/
theorem Ran.row (hran : Ran wl user mode source db db') {k : ItemKey} (hk : k.workload ≠ wl.name) :
    db'.getItemState k = db.getItemState k := by
  cases hran with
  | idle _ same => exact congrFun same.rows k
  | passed since n db₁ _ start pass rows cursor =>
    rw [rows]
    apply pass.rows
    intro hmem
    obtain ⟨x, -, hkey⟩ := List.mem_map.mp hmem
    exact hk (hkey ▸ rfl)

theorem Ran.cursor (hran : Ran wl user mode source db db') {k : CursorKey}
    (hk : k.workload ≠ wl.name) : db'.getCursor k = db.getCursor k := by
  cases hran with
  | idle _ same => exact congrFun same.cursors k
  | passed since n db₁ _ start pass rows cursor =>
    rw [← pass.cursors]
    rcases cursor with hsame | ⟨-, -, c, -, hsaved⟩
    · rw [hsame]
    · have hne : k ≠ wl.cursorKey user := fun h => hk (h ▸ rfl)
      rw [hsaved, Function.update_of_ne hne]

theorem Ran.others {β : Type} {wl' : Workload β} {log' : List β}
    (hran : Ran wl user mode source db db') (hne : wl'.name ≠ wl.name)
    (h : Synced wl' user tok log' db) : Synced wl' user tok log' db' :=
  h.congr (fun _ => hran.row hne) (hran.cursor hne)

/-- What a pass reads are current versions, each item once. -/
theorem Synced.feeds (h : Synced wl user tok log db) (hreads : Reads wl tok log source)
    {since : Option Token}
    (start : startFrom mode (db.getCursor (wl.cursorKey user)) = some since) :
    ((source since).items.map wl.sourceId).Nodup := by
  obtain ⟨stored, hc, -⟩ := h
  rw [hc] at start
  obtain ⟨pos, rfl, -⟩ := startFrom_position start
  exact (hreads pos).1.nodup

theorem Synced.edit (h : Synced wl user tok log db) (x : α) :
    Synced wl user tok (x :: log) db := by
  obtain ⟨cursor, hc, hup⟩ := h
  exact ⟨cursor, hc, hup.edit x⟩

/-- A pass of the job itself: whether it saves the cursor or not, nothing falls behind unless a
full pass skips it. -/
theorem Synced.ran (h : Synced wl user tok log db) (hreads : Reads wl tok log source)
    (hfresh : mode = .full → Fresh wl user log db)
    (hran : Ran wl user mode source db db') : Synced wl user tok log db' := by
  cases hran with
  | idle _ same => exact h.congr (fun _ => congrFun same.rows _) (congrFun same.cursors _)
  | passed since n db₁ _ start pass rows cursor =>
    obtain ⟨stored, hc, hup⟩ := h
    rw [hc] at start
    obtain ⟨pos, rfl, hpos⟩ := startFrom_position start
    obtain ⟨hfeeds, hwhole⟩ := hreads pos
    have happlies := pass.applies
      (fun hfull x hx hlive => hfresh hfull x (hfeeds.sound x hx).1 hlive)
    have happlied : wl.applied user db' = wl.applied user db₁ := Workload.applied_of_rows rows
    -- the stored position stays where it was, or moves to the end of the log
    rcases cursor with hsame | ⟨hn, hraised, c, hlast, hsaved⟩
    · refine ⟨stored, ?_, ?_⟩
      · rw [hsame, pass.cursors, hc]
      · rw [happlied]
        exact hup.pass hfeeds hpos happlies (Or.inl rfl)
    · obtain ⟨hall, hend⟩ := hwhole hraised
      refine ⟨some log.length, ?_, ?_⟩
      · rw [hsaved, Function.update_self, hend c hlast, Option.map_some]
      · rw [happlied]
        exact hup.pass hfeeds hpos happlies (Or.inr ⟨hn, hall, rfl⟩)

theorem Synced.nothingBehind (htok : Function.Injective tok) (h : Synced wl user tok log db) :
    NothingBehind wl user tok log db := by
  intro p hp x hx hchanged hlive
  obtain ⟨cursor, hc, hup⟩ := h
  obtain rfl : cursor = some p := by
    apply Option.map_injective htok
    rw [← hc, hp, Option.map_some]
  exact Db.applied_eq_some.mp ((hup p rfl).2 x hx hchanged hlive)

/-- A live item whose current version is not applied will be read by the next delta pass. -/
theorem NothingBehind.reported (h : NothingBehind wl user tok log db)
    (hreads : Reads wl tok log source) {p : ℕ}
    (hp : db.getCursor (wl.cursorKey user) = some (tok p))
    (hraised : (source (some (tok p))).raised = none) {x : α}
    (hx : latest wl.sourceId log (wl.sourceId x) = some x) (hlive : wl.live x)
    (hnot : wl.applied user db (wl.sourceId x) ≠ some (wl.marker x)) :
    x ∈ (source (some (tok p))).items := by
  apply ((hreads (some p)).2 hraised).1 x hx _ hlive
  intro q hq
  obtain rfl : p = q := Option.some.inj hq
  by_contra hbehind
  exact hnot (Db.applied_eq_some.mpr (h p hp x hx (by omega) hlive))

/-- A full pass that moves the cursor leaves behind just what it met done in another version. -/
theorem Ran.nothingBehind_iff (htok : Function.Injective tok) (h : Synced wl user tok log db)
    (hreads : Reads wl tok log source) (hran : Ran wl user .full source db db')
    (hmoved : db'.getCursor (wl.cursorKey user) ≠ db.getCursor (wl.cursorKey user)) :
    NothingBehind wl user tok log db' ↔ Fresh wl user log db := by
  refine ⟨fun hnothing x hx hlive hskips hash hhash => ?_,
    fun hfresh => (h.ran hreads (fun _ => hfresh) hran).nothingBehind htok⟩
  cases hran with
  | idle _ same => exact absurd (congrFun same.cursors _) hmoved
  | passed since n db₁ _ start pass rows cursor =>
    rcases cursor with hsame | ⟨-, hraised, c, hlast, hsaved⟩
    · rw [hsame, pass.cursors] at hmoved
      exact absurd rfl hmoved
    · obtain rfl : none = since := Option.some.inj start
      obtain ⟨hwhole, hend⟩ := (hreads none).2 hraised
      have hcursor : db'.getCursor (wl.cursorKey user) = some (tok log.length) := by
        rw [hsaved, Function.update_self, hend c hlast]
      -- the item was read, skipped, and is behind the new cursor
      have hread : x ∈ (source none).items := hwhole x hx (by simp) hlive
      have hleft := (pass.settled x hread hlive).skipped rfl hskips
        (Option.isSome_of_eq_some hhash)
      obtain ⟨row, hrow, hdone, hmarker⟩ :=
        hnothing log.length hcursor x hx (changedAt_le_length log _) hlive
      have hafter : wl.applied user db₁ (wl.sourceId x) = some (wl.marker x) := by
        rw [Workload.applied, Db.applied_eq_some, ← rows]
        exact ⟨row, hrow, hdone, hmarker⟩
      rw [hafter, hhash] at hleft
      exact (Option.some.inj hleft).symm

end

end GwsMigrator
