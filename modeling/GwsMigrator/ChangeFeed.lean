import Mathlib.Data.List.Nodup

/-! A source with a change log, copied by passes that read it from a cursor. The log is kept
newest first, and a position in it is the number of changes before it. -/
namespace GwsMigrator.ChangeFeed

variable {α κ V : Type*} [DecidableEq κ] (key : α → κ)

/-- The current version of an item: the record of its latest change. -/
def latest (log : List α) (k : κ) : Option α := log.find? (fun x => key x = k)

/-- The position just behind the latest change of an item. -/
def changedAt : List α → κ → ℕ
  | [], _ => 0
  | x :: log, k => if key x = k then log.length + 1 else changedAt log k

variable (marker : α → V) (counts : α → Prop)

/-- The items that a pass reads: current versions, of items changed after a position if there
is one, each once and in any order. -/
structure Feeds (log : List α) (since : Option ℕ) (items : List α) : Prop where
  nodup : (items.map key).Nodup
  sound : ∀ x ∈ items, latest key log (key x) = some x ∧ ∀ p ∈ since, p < changedAt key log (key x)

/-- Nothing that counts is missing. -/
def Whole (log : List α) (since : Option ℕ) (items : List α) : Prop :=
  ∀ x, latest key log (key x) = some x → (∀ p ∈ since, p < changedAt key log (key x)) →
    counts x → x ∈ items

/-- Every item that counts and did not change after the cursor was applied in its current
version. -/
def UpToDate (log : List α) (cursor : Option ℕ) (applied : κ → Option V) : Prop :=
  ∀ p ∈ cursor, p ≤ log.length ∧ ∀ x, latest key log (key x) = some x →
    changedAt key log (key x) ≤ p → counts x → applied (key x) = some (marker x)

/-- What a pass does to the applied versions: nothing outside its feed, all of the feed if it
is clean, and if it is full then it does not spoil what is up to date. -/
structure Applies (full : Prop) (items : List α) (applied applied' : κ → Option V)
    (clean : Prop) : Prop where
  others : ∀ k, k ∉ items.map key → applied' k = applied k
  all : clean → ∀ x ∈ items, counts x → applied' (key x) = some (marker x)
  kept : full → ∀ x ∈ items, counts x → applied (key x) = some (marker x) →
    applied' (key x) = some (marker x)

/-- The current versions, the last changed first. -/
def current : List α → List α
  | [] => []
  | x :: log => x :: (current log).filter (fun y => key y ≠ key x)

/-- What a source with this log reads out. -/
def changedSince (log : List α) (since : Option ℕ) : List α :=
  (current key log).filter (fun x => since.all (fun p => p < changedAt key log (key x)))

variable {key marker counts} {log : List α} {cursor : Option ℕ} {applied applied' : κ → Option V}

theorem latest_cons (x : α) (log : List α) (k : κ) :
    latest key (x :: log) k = if key x = k then some x else latest key log k := by
  unfold latest
  by_cases hkey : key x = k
  · rw [if_pos hkey, List.find?_cons_of_pos (by simpa using hkey)]
  · rw [if_neg hkey, List.find?_cons_of_neg (by simpa using hkey)]

theorem changedAt_le_length (log : List α) (k : κ) : changedAt key log k ≤ log.length := by
  induction log with
  | nil => exact Nat.le_refl 0
  | cons x log ih =>
    rw [changedAt, List.length_cons]
    split
    · exact Nat.le_refl _
    · omega

theorem mem_current (log : List α) (x : α) :
    x ∈ current key log ↔ latest key log (key x) = some x := by
  induction log with
  | nil => simp [current, latest]
  | cons y log ih =>
    rw [current, List.mem_cons, List.mem_filter, ih, latest_cons]
    by_cases hkey : key y = key x
    · simp [hkey, eq_comm]
    · have hne : x ≠ y := fun h => hkey (h ▸ rfl)
      simp [hkey, hne, Ne.symm hkey]

theorem nodup_current (log : List α) : ((current key log).map key).Nodup := by
  induction log with
  | nil => exact List.nodup_nil
  | cons x log ih =>
    rw [current, List.map_cons, List.nodup_cons]
    refine ⟨fun hmem => ?_, ih.sublist (List.filter_sublist.map key)⟩
    obtain ⟨y, hy, hyx⟩ := List.mem_map.mp hmem
    have hne := (List.mem_filter.mp hy).2
    simp [hyx] at hne

theorem mem_changedSince (log : List α) (since : Option ℕ) (x : α) :
    x ∈ changedSince key log since ↔ latest key log (key x) = some x ∧
      ∀ p ∈ since, p < changedAt key log (key x) := by
  rw [changedSince, List.mem_filter, mem_current, Option.all_eq_true]
  simp

theorem feeds_changedSince (log : List α) (since : Option ℕ) :
    Feeds key log since (changedSince key log since) :=
  ⟨(nodup_current log).sublist (List.filter_sublist.map key),
    fun x hx => (mem_changedSince log since x).mp hx⟩

theorem whole_changedSince (counts : α → Prop) (log : List α) (since : Option ℕ) :
    Whole key counts log since (changedSince key log since) :=
  fun x hx hchanged _ => (mem_changedSince log since x).mpr ⟨hx, hchanged⟩

theorem upToDate_none : UpToDate key marker counts log none applied :=
  fun _ hp => absurd hp (by simp)

/-- A change moves its item behind the cursor and leaves the others where they are. -/
theorem UpToDate.edit (h : UpToDate key marker counts log cursor applied) (x : α) :
    UpToDate key marker counts (x :: log) cursor applied := by
  intro p hp
  obtain ⟨hle, hall⟩ := h p hp
  refine ⟨by rw [List.length_cons]; omega, fun y hy hchanged hcounts => ?_⟩
  rw [changedAt] at hchanged
  rw [latest_cons] at hy
  by_cases hkey : key x = key y
  · rw [if_pos hkey] at hchanged
    omega
  · rw [if_neg hkey] at hchanged hy
    exact hall y hy hchanged hcounts

/-- What is up to date stays so while the log grows. -/
theorem UpToDate.grow {log' : List α} (h : UpToDate key marker counts log cursor applied)
    (hgrows : log <:+ log') : UpToDate key marker counts log' cursor applied := by
  obtain ⟨changes, rfl⟩ := hgrows
  induction changes with
  | nil => exact h
  | cons x changes ih => exact ih.edit x

/-- A pass from nothing or from the cursor keeps everything up to date, whether it moves the
cursor to the end of the log, which only a clean pass over a whole feed does, or leaves it. -/
theorem UpToDate.pass {since cursor' : Option ℕ} {items : List α} {clean full : Prop}
    (h : UpToDate key marker counts log cursor applied) (hfeed : Feeds key log since items)
    (hsince : (since = none ∧ full) ∨ since = cursor)
    (happlies : Applies key marker counts full items applied applied' clean)
    (hcursor : cursor' = cursor ∨
      (clean ∧ Whole key counts log since items ∧ cursor' = some log.length)) :
    UpToDate key marker counts log cursor' applied' := by
  -- the feed holds no other version of an item that it does not hold
  have houtside : ∀ x, latest key log (key x) = some x → x ∉ items →
      applied' (key x) = applied (key x) := by
    intro x hx hmem
    apply happlies.others
    intro hkey
    obtain ⟨y, hy, hyx⟩ := List.mem_map.mp hkey
    have hycur := (hfeed.sound y hy).1
    rw [hyx, hx] at hycur
    exact hmem (Option.some.inj hycur ▸ hy)
  rcases hcursor with rfl | ⟨hclean, hwhole, rfl⟩
  · -- the cursor stays: what was up to date still is
    intro p hp
    obtain ⟨hle, hall⟩ := h p hp
    refine ⟨hle, fun x hx hchanged hcounts => ?_⟩
    have hbefore := hall x hx hchanged hcounts
    by_cases hmem : x ∈ items
    · rcases hsince with ⟨-, hfull⟩ | hs
      · exact happlies.kept hfull x hmem hcounts hbefore
      · have hlt := (hfeed.sound x hmem).2 p (hs ▸ hp)
        omega
    · rw [houtside x hx hmem]
      exact hbefore
  · -- the cursor moves: all of the feed is applied, and what is not in it was up to date
    intro p hp
    obtain rfl : log.length = p := Option.some.inj hp
    refine ⟨Nat.le_refl _, fun x hx _ hcounts => ?_⟩
    by_cases hmem : x ∈ items
    · exact happlies.all hclean x hmem hcounts
    · have hnew : ∃ p ∈ since, changedAt key log (key x) ≤ p := by
        by_contra hnone
        apply hmem
        refine hwhole x hx (fun p hp => ?_) hcounts
        by_contra hlt
        exact hnone ⟨p, hp, by omega⟩
      obtain ⟨p, hp, hchanged⟩ := hnew
      rcases hsince with ⟨rfl, -⟩ | rfl
      · exact absurd hp (by simp)
      · rw [houtside x hx hmem]
        exact (h p hp).2 x hx hchanged hcounts

end GwsMigrator.ChangeFeed
