import GwsMigrator.ChangeFeed

/-! A listing that is read from a source while its change log grows. The cursor is the end of the
log at the beginning, so that what changes meanwhile stays behind it. -/
namespace GwsMigrator.ChangeFeed

variable {α κ V : Type*} [DecidableEq κ] {key : α → κ} {marker : α → V} {counts : α → Prop}
variable {log log₁ log' : List α} {items : List α} {cursor cursor' : Option ℕ}
variable {applied applied' : κ → Option V} {clean full : Prop} {k : κ}

/-- What did not change behind a position has nothing to do with the changes behind it. -/
theorem latest_append_of_notMem {changes : List α} (h : ∀ x ∈ changes, key x ≠ k) :
    latest key (changes ++ log) k = latest key log k ∧
      changedAt key (changes ++ log) k = changedAt key log k := by
  induction changes with
  | nil => exact ⟨rfl, rfl⟩
  | cons x changes ih =>
    have hne := h x List.mem_cons_self
    rw [List.cons_append, latest_cons, changedAt, if_neg hne, if_neg hne]
    exact ih (fun y hy => h y (List.mem_cons_of_mem x hy))

theorem notMem_of_changedAt_le {changes : List α}
    (h : changedAt key (changes ++ log) k ≤ log.length) : ∀ x ∈ changes, key x ≠ k := by
  induction changes with
  | nil => exact fun x hx => absurd hx List.not_mem_nil
  | cons y changes ih =>
    rw [List.cons_append, changedAt] at h
    by_cases hkey : key y = k
    · rw [if_pos hkey, List.length_append] at h
      omega
    · rw [if_neg hkey] at h
      intro x hx
      rcases List.mem_cons.mp hx with rfl | hx
      · exact hkey
      · exact ih h x hx

/-- A log in between has the version of an item that does not change after the first one. -/
theorem latest_between (h : log <:+ log₁) (h' : log₁ <:+ log')
    (hk : changedAt key log' k ≤ log.length) :
    latest key log₁ k = latest key log' k ∧ changedAt key log₁ k = changedAt key log' k := by
  obtain ⟨changes, rfl⟩ := h'
  have hlater := notMem_of_changedAt_le (Nat.le_trans hk h.length_le)
  exact ⟨(latest_append_of_notMem hlater).1.symm, (latest_append_of_notMem hlater).2.symm⟩

variable (key) in
/-- What is read of a listing while the log grows from `log` to `log'`: each item once, in a version
that it had meanwhile. -/
structure Listing (log log' items : List α) : Prop where
  nodup : (items.map key).Nodup
  sound : ∀ x ∈ items, ∃ log₁, log <:+ log₁ ∧ log₁ <:+ log' ∧ latest key log₁ (key x) = some x

variable (key) in
/-- The item is there while the log grows, in one version. -/
def Lasts (log log' : List α) (x : α) : Prop :=
  latest key log' (key x) = some x ∧ changedAt key log' (key x) ≤ log.length

theorem Lasts.before {x : α} (h : Lasts key log log' x) (hgrows : log <:+ log') :
    latest key log (key x) = some x ∧
      changedAt key log (key x) = changedAt key log' (key x) := by
  obtain ⟨hlatest, hchanged⟩ := latest_between (List.suffix_refl log) hgrows h.2
  exact ⟨hlatest.trans h.1, hchanged⟩

theorem Lasts.mono {x : α} (h : Lasts key log log' x) (hgrows : log <:+ log₁) :
    Lasts key log₁ log' x :=
  ⟨h.1, Nat.le_trans h.2 hgrows.length_le⟩

theorem Listing.mono (h : Listing key log₁ log' items) (hgrows : log <:+ log₁) :
    Listing key log log' items := by
  refine ⟨h.nodup, fun x hx => ?_⟩
  obtain ⟨log₂, hlog, hlog', hlatest⟩ := h.sound x hx
  exact ⟨log₂, hgrows.trans hlog, hlog', hlatest⟩

/-- What lasts is listed in its version, if it is listed at all. -/
theorem Listing.mem_of_lasts (h : Listing key log log' items) {x : α}
    (hx : Lasts key log log' x) (hmem : key x ∈ items.map key) : x ∈ items := by
  obtain ⟨y, hy, hkey⟩ := List.mem_map.mp hmem
  obtain ⟨log₁, hlog, hlog', hlatest⟩ := h.sound y hy
  rw [hkey, (latest_between hlog hlog' hx.2).1, hx.1] at hlatest
  exact Option.some.inj hlatest ▸ hy

/-- A pass over a listing keeps everything up to date. The cursor may move to where the log ended
at the beginning, if the pass is clean and all that lasts is listed. -/
theorem UpToDate.listing (h : UpToDate key marker counts log cursor applied)
    (hgrows : log <:+ log') (hlisting : Listing key log log' items)
    (hfull : full) (happlies : Applies key marker (fun x => counts x ∧ Lasts key log log' x) full
      items applied applied' clean)
    (hcursor : cursor' = cursor ∨
      (clean ∧ (∀ x, Lasts key log log' x → counts x → x ∈ items) ∧ cursor' = some log.length)) :
    UpToDate key marker counts log' cursor' applied' := by
  intro p hp
  rcases hcursor with rfl | ⟨hclean, hwhole, rfl⟩
  · obtain ⟨hle, hall⟩ := h p hp
    refine ⟨Nat.le_trans hle hgrows.length_le, fun x hx hchanged hcounts => ?_⟩
    have hlasts : Lasts key log log' x := ⟨hx, Nat.le_trans hchanged hle⟩
    obtain ⟨hlatest, hsame⟩ := hlasts.before hgrows
    have hbefore := hall x hlatest (hsame ▸ hchanged) hcounts
    by_cases hmem : key x ∈ items.map key
    · exact happlies.kept hfull x (hlisting.mem_of_lasts hlasts hmem) ⟨hcounts, hlasts⟩ hbefore
    · rw [happlies.others _ hmem]
      exact hbefore
  · obtain rfl : log.length = p := Option.some.inj hp
    refine ⟨hgrows.length_le, fun x hx hchanged hcounts => ?_⟩
    have hlasts : Lasts key log log' x := ⟨hx, hchanged⟩
    exact happlies.all hclean x (hwhole x hlasts hcounts) ⟨hcounts, hlasts⟩

end GwsMigrator.ChangeFeed
