import GwsMigrator.GraphCalls

/-! The state store against the destination: when ItemMap names exactly the live
copies, and how the calls and row updates of a job keep it so. -/
namespace GwsMigrator
open Dialogue Mirror

variable (effect : Event Call.Ans → Effect Token ItemKey)

/-- The dest_id column names the one live copy of every item. -/
def World.Mirrors (w : World) : Prop := Coherent w.db.recorded (replay effect w.log)

/-- The row of `k` holds an id exactly when the copy with that id is the one live copy made
for `k`, and holds none exactly when no copy is live. -/
def World.Names (w : World) (k : ItemKey) : Prop :=
  (∀ id, (w.db.getItemState k).bind (·.destId) = some id ↔
    copiesOf (replay effect w.log) k = [id]) ∧
  ((w.db.getItemState k).bind (·.destId) = none ↔ copiesOf (replay effect w.log) k = [])

variable {effect} {g : Graph} {w : World}

theorem mirrors_empty : World.Mirrors effect {} := by
  have h : ({} : World).db.recorded = fun _ => none := rfl
  rw [World.Mirrors, h]
  exact coherent_empty

theorem recorded_of_getItemState {k : ItemKey} {state : Option ItemValues}
    (hs : w.db.getItemState k = state) : w.db.recorded k = state.bind (·.destId) := by
  rw [Db.recorded_eq, hs]

namespace World.Mirrors

theorem names (h : w.Mirrors effect) (k : ItemKey) : w.Names effect k := by
  have hk := h.copies k
  rw [Db.recorded_eq] at hk
  rw [World.Names, hk]
  cases (w.db.getItemState k).bind (·.destId) <;> simp [eq_comm]

theorem after_keep (h : w.Mirrors effect) {c : Call} (hc : effect ⟨c, g.ask w c⟩ = .keep) :
    (g.after w c).Mirrors effect := by
  rw [World.Mirrors, Graph.after_log, replay, hc]
  exact h

/-- Rewriting the row of an item is harmless while its dest_id stays. -/
theorem upsert_same (h : w.Mirrors effect) {k : ItemKey} {v : ItemValues}
    (hv : v.destId = w.db.recorded k) : (w.upsertItem k v).Mirrors effect := by
  rw [World.Mirrors, World.upsertItem_db, Db.recorded_upsertItem, hv, Function.update_eq_self]
  exact h

/-- An item without a copy gets a new one, and its row the id. -/
theorem create_upsert (h : w.Mirrors effect) {c : Call} {k : ItemKey} {id : Token} {v : ItemValues}
    (hk : w.db.recorded k = none) (hc : effect ⟨c, g.ask w c⟩ = .create id k)
    (hid : id ∉ issued effect w.log) (hv : v.destId = some id) :
    ((g.after w c).upsertItem k v).Mirrors effect := by
  rw [World.Mirrors, World.upsertItem_db, World.upsertItem_log, Db.recorded_upsertItem,
    Graph.recorded_after, Graph.after_log, replay, hc, hv]
  apply Coherent.create h hk
  intro hlive
  obtain ⟨e, he, rfl⟩ := List.mem_map.mp hlive
  exact hid (replay_subset_issued effect w.log e he)

/-- The recorded copy of an item is deleted, and its row forgets the id. -/
theorem delete_upsert (h : w.Mirrors effect) {c : Call} {k : ItemKey} {id : Token} {v : ItemValues}
    (hk : w.db.recorded k = some id) (hc : effect ⟨c, g.ask w c⟩ = .delete id)
    (hv : v.destId = none) : ((g.after w c).upsertItem k v).Mirrors effect := by
  rw [World.Mirrors, World.upsertItem_db, World.upsertItem_log, Db.recorded_upsertItem,
    Graph.recorded_after, Graph.after_log, replay, hc, hv]
  exact Coherent.delete h hk

theorem advance {r : JobResult} (h : r.world.Mirrors effect) (k : CursorKey) (failures : ℕ)
    (lastCursor : Option Token) : (advanceCursor r k failures lastCursor).world.Mirrors effect := by
  rw [World.Mirrors, advanceCursor_recorded, advanceCursor_log]
  exact h

end World.Mirrors

end GwsMigrator
