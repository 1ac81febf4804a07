import Mathlib.Data.Set.Card
import Mathlib.Logic.Relation

/-! Walks along the links of a relation. In a finite set every walk can be followed until it has
nowhere to go, or leads back to a place it has been to. -/
namespace GwsMigrator.LinkWalks

variable {α : Type*} (Links : α → α → Prop)

/-- A walk from one place to another, with the places it comes by. -/
inductive Walk : α → List α → α → Prop
  | stay (a : α) : Walk a [a] a
  | step {a b z : α} {places : List α} (link : Links a b) (rest : Walk b places z) :
      Walk a (a :: places) z

/-- No place that can be reached from here leads back to itself. -/
def Acyclic (a : α) : Prop :=
  ∀ b, Relation.ReflTransGen Links a b → ¬ Relation.TransGen Links b b

/-- A walk past places not seen before, followed until it ends or leads back. -/
structure Followed (seen : Set α) (a : α) (places : List α) (z : α) : Prop where
  walk : Walk Links a places z
  nodup : places.Nodup
  fresh : ∀ b ∈ places, b ∉ seen
  ends : (∀ b, ¬ Links z b) ∨ ∃ b, Links z b ∧ (b ∈ seen ∨ b ∈ places)

variable {Links} {a b z : α} {places : List α}

theorem Walk.ne_nil (h : Walk Links a places z) : places ≠ [] := by
  cases h with
  | stay => exact List.cons_ne_nil _ _
  | step => exact List.cons_ne_nil _ _

theorem Walk.whole (h : Walk Links a places z) : Relation.ReflTransGen Links a z := by
  induction h with
  | stay a => exact .refl
  | step link rest ih => exact ih.head link

theorem Walk.reaches (h : Walk Links a places z) (hb : b ∈ places) :
    Relation.ReflTransGen Links a b := by
  induction h with
  | stay a => rw [List.mem_singleton.mp hb]
  | step link rest ih =>
    rcases List.mem_cons.mp hb with rfl | hb
    · exact .refl
    · exact (ih hb).head link

theorem Walk.leads (h : Walk Links a places z) (hb : b ∈ places) :
    Relation.ReflTransGen Links b z := by
  induction h with
  | stay a => rw [List.mem_singleton.mp hb]
  | step link rest ih =>
    rcases List.mem_cons.mp hb with rfl | hb
    · exact rest.whole.head link
    · exact ih hb

/-- A walk stays in a set that its links do not leave. -/
theorem Walk.stays {s : Set α} (h : Walk Links a places z) (ha : a ∈ s)
    (hs : ∀ b ∈ s, ∀ c, Links b c → c ∈ s) : ∀ b ∈ places, b ∈ s := by
  induction h with
  | stay a =>
    intro b hb
    rw [List.mem_singleton.mp hb]
    exact ha
  | step link rest ih =>
    intro b hb
    rcases List.mem_cons.mp hb with rfl | hb
    · exact ha
    · exact ih (hs _ ha _ link) b hb

/-- Where there are no cycles, a walk does not lead back to where it has been. -/
theorem Acyclic.no_return (hacyclic : Acyclic Links a) (h : Walk Links a places z)
    (link : Links z b) : b ∉ places := by
  intro hb
  have hcycle : Relation.TransGen Links b b := .tail' (h.leads hb) link
  exact hacyclic b (h.reaches hb) hcycle

/-- Where every link lowers a rank there are no cycles. -/
theorem acyclic_of_rank (rank : α → ℕ) (h : ∀ a b, Links a b → rank b < rank a) (a : α) :
    Acyclic Links a := by
  intro b _ hcycle
  have hlower : ∀ {c d : α}, Relation.TransGen Links c d → rank d < rank c := by
    intro c d hcd
    induction hcd with
    | single link => exact h _ _ link
    | tail _ link ih => exact (h _ _ link).trans ih
  exact lt_irrefl _ (hlower hcycle)

variable {seen : Set α}

theorem Followed.stay (ha : a ∉ seen)
    (hends : (∀ b, ¬ Links a b) ∨ ∃ b, Links a b ∧ b ∈ insert a seen) :
    Followed Links seen a [a] a where
  walk := .stay a
  nodup := List.nodup_singleton a
  fresh b hb := by
    rw [List.mem_singleton.mp hb]
    exact ha
  ends := by
    rcases hends with hends | ⟨b, link, rfl | hb⟩
    · exact Or.inl hends
    · exact Or.inr ⟨b, link, Or.inr (List.mem_singleton_self b)⟩
    · exact Or.inr ⟨b, link, Or.inl hb⟩

/-- One place more in front, which the walk then keeps out of. -/
theorem Followed.step (h : Followed Links (insert a seen) b places z) (link : Links a b)
    (ha : a ∉ seen) : Followed Links seen a (a :: places) z where
  walk := .step link h.walk
  nodup := List.nodup_cons.mpr ⟨fun hmem => h.fresh a hmem (Set.mem_insert a seen), h.nodup⟩
  fresh c hc := by
    rcases List.mem_cons.mp hc with rfl | hc
    · exact ha
    · exact fun hseen => h.fresh c hc (Set.mem_insert_of_mem a hseen)
  ends := by
    rcases h.ends with hends | ⟨c, hlink, (rfl | hseen) | hc⟩
    · exact Or.inl hends
    · exact Or.inr ⟨c, hlink, Or.inr List.mem_cons_self⟩
    · exact Or.inr ⟨c, hlink, Or.inl hseen⟩
    · exact Or.inr ⟨c, hlink, Or.inr (List.mem_cons_of_mem a hc)⟩

/-- In a finite set that its links do not leave, every walk can be followed. -/
theorem exists_followed {s : Set α} (hfinite : s.Finite)
    (hs : ∀ a ∈ s, ∀ b, Links a b → b ∈ s) (ha : a ∈ s) (hnew : a ∉ seen) :
    ∃ places z, Followed Links seen a places z := by
  -- every step takes one place from the unseen ones
  induction hunseen : (s \ seen).ncard generalizing seen a with
  | zero =>
    have hnone := (Set.ncard_eq_zero hfinite.sdiff).mp hunseen
    exact absurd ⟨ha, hnew⟩ (Set.eq_empty_iff_forall_notMem.mp hnone a)
  | succ n ih =>
    by_cases hnext : ∃ b, Links a b
    · obtain ⟨b, link⟩ := hnext
      have hmem : a ∈ s \ seen := ⟨ha, hnew⟩
      by_cases hb : b ∈ insert a seen
      · exact ⟨[a], a, .stay hnew (Or.inr ⟨b, link, hb⟩)⟩
      · have hcard : (s \ insert a seen).ncard = n := by
          have herase : s \ insert a seen = (s \ seen) \ {a} := by
            rw [Set.insert_eq, Set.union_comm, Set.sdiff_sdiff]
          rw [herase, Set.ncard_sdiff_singleton_of_mem hmem, hunseen, Nat.add_sub_cancel]
        obtain ⟨places, z, hrest⟩ := ih (hs a ha b link) hb hcard
        exact ⟨a :: places, z, hrest.step link hnew⟩
    · exact ⟨[a], a, .stay hnew (Or.inl (not_exists.mp hnext))⟩

end GwsMigrator.LinkWalks
