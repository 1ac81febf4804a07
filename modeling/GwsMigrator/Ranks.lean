import Mathlib.Data.Set.Card
import Mathlib.Order.Interval.Set.Defs

/-! The first, second or last element of a set of an order, as the number of elements up to it
or from it on. -/
namespace GwsMigrator.Ranks

variable {α : Type*} [LinearOrder α]

/-- Where a position counts: the elements up to `a`, or those from `a` on. -/
def counted (k : ℤ) (a : α) : Set α := if 0 < k then Set.Iic a else Set.Ici a

/-- The `k`-th element of a set from its start or, where `k` is negative, from its end. -/
def IsNth (s : Set α) (k : ℤ) (a : α) : Prop := a ∈ s ∧ (s ∩ counted k a).encard = k.natAbs

theorem mem_counted_self (k : ℤ) (a : α) : a ∈ counted k a := by
  rw [counted]
  split
  · exact le_rfl
  · exact le_rfl

/-- Of a set with one element, that is the first and the last. -/
theorem isNth_of_unique {s : Set α} {a : α} (ha : a ∈ s) (hunique : ∀ b ∈ s, b = a) (k : ℤ) :
    IsNth s k a ↔ k = 1 ∨ k = -1 := by
  have hsingle : s ∩ counted k a = {a} := by
    apply Set.eq_singleton_iff_unique_mem.mpr
    exact ⟨⟨ha, mem_counted_self k a⟩, fun b hb => hunique b hb.1⟩
  rw [IsNth, hsingle, Set.encard_singleton]
  constructor
  · rintro ⟨-, hk⟩
    have habs : k.natAbs = 1 := by exact_mod_cast hk.symm
    omega
  · intro hk
    have habs : k.natAbs = 1 := by omega
    exact ⟨ha, by rw [habs]; rfl⟩

/-- Of two elements one counts all that the other one does, and itself. -/
theorem counted_grows (k : ℤ) {a b : α} (h : a < b) :
    counted k a ⊆ counted k b \ {b} ∨ counted k b ⊆ counted k a \ {a} := by
  rw [counted, counted]
  split
  · left
    exact fun c hc => ⟨hc.trans h.le, (lt_of_le_of_lt hc h).ne⟩
  · right
    exact fun c hc => ⟨h.le.trans hc, (lt_of_lt_of_le h hc).ne'⟩

/-- No two elements are the `k`-th. -/
theorem IsNth.unique {s : Set α} {k : ℤ} {a b : α} (ha : IsNth s k a) (hb : IsNth s k b) :
    a = b := by
  have hnot : ∀ {c d : α}, IsNth s k c → IsNth s k d → ¬ counted k c ⊆ counted k d \ {d} := by
    intro c d hc hd hsub
    have hself : d ∈ s ∩ counted k d := ⟨hd.1, mem_counted_self k d⟩
    have hinter : s ∩ counted k c ⊆ (s ∩ counted k d) \ {d} :=
      fun x hx => ⟨⟨hx.1, (hsub hx.2).1⟩, (hsub hx.2).2⟩
    have hlt : (k.natAbs : ℕ∞) + 1 ≤ k.natAbs :=
      calc (k.natAbs : ℕ∞) + 1 = (s ∩ counted k c).encard + 1 := by rw [hc.2]
        _ ≤ ((s ∩ counted k d) \ {d}).encard + 1 := by gcongr
        _ = (s ∩ counted k d).encard := Set.encard_sdiff_singleton_add_one hself
        _ = k.natAbs := hd.2
    have hnat : k.natAbs + 1 ≤ k.natAbs := by exact_mod_cast hlt
    omega
  rcases lt_trichotomy a b with h | h | h
  · rcases counted_grows k h with hsub | hsub
    · exact absurd hsub (hnot ha hb)
    · exact absurd hsub (hnot hb ha)
  · exact h
  · rcases counted_grows k h with hsub | hsub
    · exact absurd hsub (hnot hb ha)
    · exact absurd hsub (hnot ha hb)

/-- Only the elements that are counted matter for a position. -/
theorem isNth_inter {s t : Set α} {k : ℤ} {a : α} (ht : a ∈ s → a ∈ t → s ∩ counted k a ⊆ t) :
    IsNth (s ∩ t) k a ↔ IsNth s k a ∧ a ∈ t := by
  have hcounted : a ∈ s → a ∈ t → s ∩ t ∩ counted k a = s ∩ counted k a := by
    intro hs hat
    ext b
    exact ⟨fun hb => ⟨hb.1.1, hb.2⟩, fun hb => ⟨⟨hb.1, ht hs hat hb⟩, hb.2⟩⟩
  constructor
  · rintro ⟨⟨hs, hat⟩, hcard⟩
    rw [hcounted hs hat] at hcard
    exact ⟨⟨hs, hcard⟩, hat⟩
  · rintro ⟨⟨hs, hcard⟩, hat⟩
    refine ⟨⟨hs, hat⟩, ?_⟩
    rw [hcounted hs hat]
    exact hcard

/-- No more elements are counted than the position says. -/
theorem IsNth.card_le {s : Set α} {k : ℤ} {a : α} (h : IsNth s k a) {found : Finset α}
    (hfound : ∀ b ∈ found, b ∈ s ∧ b ∈ counted k a) : found.card ≤ k.natAbs := by
  have hsub : (found : Set α) ⊆ s ∩ counted k a := fun b hb => hfound b hb
  have hcard := Set.encard_le_encard hsub
  rw [h.2, Set.encard_coe_eq_coe_finsetCard] at hcard
  exact_mod_cast hcard

end GwsMigrator.Ranks
