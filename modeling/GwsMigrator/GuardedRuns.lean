import Mathlib.Data.List.Basic
import Mathlib.Data.List.Nodup

/-! Runs of a step function over a list of inputs, with a condition that every
step meets in the state it starts from. -/
namespace GwsMigrator.Runs

variable {σ α : Type*} (step : σ → α → σ)

/-- Every step of the run meets `ok` in the state before it. -/
def Guarded (ok : σ → α → Prop) : σ → List α → Prop
  | _, [] => True
  | s, a :: as => ok s a ∧ Guarded ok (step s a) as

@[simp] theorem guarded_nil (ok : σ → α → Prop) (s : σ) : Guarded step ok s [] := trivial

@[simp] theorem guarded_cons (ok : σ → α → Prop) (s : σ) (a : α) (as : List α) :
    Guarded step ok s (a :: as) ↔ ok s a ∧ Guarded step ok (step s a) as := Iff.rfl

instance guardedDecidable (ok : σ → α → Prop) [∀ s a, Decidable (ok s a)] :
    ∀ (s : σ) (as : List α), Decidable (Guarded step ok s as)
  | _, [] => inferInstanceAs (Decidable True)
  | s, a :: as =>
    have := guardedDecidable ok (step s a) as
    inferInstanceAs (Decidable (ok s a ∧ Guarded step ok (step s a) as))

theorem guarded_append (ok : σ → α → Prop) (s : σ) (as bs : List α) :
    Guarded step ok s (as ++ bs) ↔
      Guarded step ok s as ∧ Guarded step ok (as.foldl step s) bs := by
  induction as generalizing s with
  | nil => simp
  | cons a as ih =>
    rw [List.cons_append, guarded_cons, guarded_cons, ih, List.foldl_cons, and_assoc]

/-- The invariant rule: what every admitted step keeps, every admitted run keeps. -/
theorem guarded_run_invariant (I : σ → Prop) (ok : σ → α → Prop)
    (hstep : ∀ s a, I s → ok s a → I (step s a)) (s : σ) (as : List α)
    (hs : I s) (hg : Guarded step ok s as) : I (as.foldl step s) := by
  induction as generalizing s with
  | nil => exact hs
  | cons a as ih => exact ih (step s a) (hstep s a hs hg.1) hg.2

/-- A guard that holds of every input in every state admits every run. -/
theorem guarded_of_forall (ok : σ → α → Prop) (as : List α)
    (h : ∀ s, ∀ a ∈ as, ok s a) (s : σ) : Guarded step ok s as := by
  induction as generalizing s with
  | nil => trivial
  | cons a as ih =>
    exact ⟨h s a List.mem_cons_self, ih (fun s b hb => h s b (List.mem_cons_of_mem a hb)) _⟩

theorem guarded_and (ok ok' : σ → α → Prop) (s : σ) (as : List α)
    (h : Guarded step ok s as) (h' : Guarded step ok' s as) :
    Guarded step (fun s a => ok s a ∧ ok' s a) s as := by
  induction as generalizing s with
  | nil => trivial
  | cons a as ih => exact ⟨⟨h.1, h'.1⟩, ih _ h.2 h'.2⟩

/-- Guards that agree on every step admit the same runs. -/
theorem guarded_congr {ok ok' : σ → α → Prop} (as : List α)
    (h : ∀ s, ∀ a ∈ as, ok s a ↔ ok' s a) (s : σ) :
    Guarded step ok s as ↔ Guarded step ok' s as := by
  induction as generalizing s with
  | nil => exact Iff.rfl
  | cons a as ih =>
    rw [guarded_cons, guarded_cons, h s a List.mem_cons_self,
      ih (fun s b hb => h s b (List.mem_cons_of_mem a hb))]

section growing

variable (count : σ → ℕ)

/-- The inputs of a run at which `count` grows. -/
def growing : σ → List α → List α
  | _, [] => []
  | s, a :: as =>
    if count s < count (step s a) then a :: growing (step s a) as else growing (step s a) as

/-- No input of a kind makes the count grow exactly when no step on that kind does. -/
theorem forall_growing_iff (P : α → Prop) (s : σ) (as : List α) :
    (∀ a ∈ growing step count s as, ¬ P a) ↔
      Guarded step (fun s a => P a → count (step s a) ≤ count s) s as := by
  induction as generalizing s with
  | nil => simp [growing]
  | cons a as ih =>
    rw [guarded_cons, ← ih, growing]
    by_cases h : count s < count (step s a)
    · rw [if_pos h, List.forall_mem_cons]
      have hstay : ¬ count (step s a) ≤ count s := by omega
      simp only [hstay, imp_false]
    · rw [if_neg h]
      have hstay : count (step s a) ≤ count s := by omega
      simp only [hstay, implies_true, true_and]

theorem count_le_foldl (hmono : ∀ s a, count s ≤ count (step s a)) (s : σ) (as : List α) :
    count s ≤ count (as.foldl step s) := by
  induction as generalizing s with
  | nil => exact Nat.le_refl _
  | cons a as ih => exact Nat.le_trans (hmono s a) (ih (step s a))

/-- A count that never shrinks is where it was at the end exactly when no step moved it. -/
theorem foldl_count_le_iff (hmono : ∀ s a, count s ≤ count (step s a)) (s : σ) (as : List α) :
    count (as.foldl step s) ≤ count s ↔
      Guarded step (fun s a => count (step s a) ≤ count s) s as := by
  induction as generalizing s with
  | nil => simp
  | cons a as ih =>
    have hfirst := hmono s a
    have hrest := count_le_foldl step count hmono (step s a) as
    rw [guarded_cons, ← ih, List.foldl_cons]
    omega

end growing

/-- A step that puts out `emit a` in every good state, and keeps the state good, puts out
what `emit` gives for the inputs one after the other. -/
theorem foldl_emits {β : Type*} (good : σ → Prop) (out : σ → List β) (emit : α → List β)
    (as : List α)
    (hstep : ∀ s, ∀ a ∈ as, good s → good (step s a) ∧ out (step s a) = out s ++ emit a) (s : σ)
    (hs : good s) :
    good (as.foldl step s) ∧ out (as.foldl step s) = out s ++ as.flatMap emit := by
  induction as generalizing s with
  | nil => exact ⟨hs, by simp⟩
  | cons a as ih =>
    obtain ⟨hgood, hout⟩ := hstep s a List.mem_cons_self hs
    obtain ⟨hend, hall⟩ := ih (fun s b hb => hstep s b (List.mem_cons_of_mem a hb)) _ hgood
    refine ⟨hend, ?_⟩
    rw [List.foldl_cons, hall, hout, List.flatMap_cons, List.append_assoc]

section settling

variable {κ : Type*} (key : α → κ) (Ready Settled : σ → α → Prop)

/-- A step that settles its own item and disturbs no other leaves every item of
a list with distinct keys settled. -/
theorem foldl_settles (as : List α) (hd : (as.map key).Nodup)
    (hown : ∀ s, ∀ a ∈ as, Ready s a → Settled (step s a) a)
    (hready : ∀ s, ∀ a ∈ as, ∀ b ∈ as, key a ≠ key b → Ready s b → Ready (step s a) b)
    (hsettled : ∀ s, ∀ a ∈ as, ∀ b ∈ as, key a ≠ key b → Settled s b → Settled (step s a) b)
    (s : σ) (hs : ∀ a ∈ as, Ready s a) : ∀ a ∈ as, Settled (as.foldl step s) a := by
  suffices h : ∀ todo done : List α, as = done ++ todo → ∀ s,
      (∀ a ∈ todo, Ready s a) → (∀ a ∈ done, Settled s a) →
      ∀ a ∈ as, Settled (todo.foldl step s) a from
    h as [] rfl s hs (fun a ha => absurd ha List.not_mem_nil)
  intro todo
  induction todo with
  | nil =>
    intro done heq s _ hdone a ha
    exact hdone a (by simpa [heq] using ha)
  | cons b todo ih =>
    intro done heq s htodo hdone
    have hb : b ∈ as := by simp [heq]
    -- keys are distinct, so the step leaves the settled ones and the waiting ones alone
    have hne : ∀ a, a ∈ done ∨ a ∈ todo → key b ≠ key a := by
      have hd' := hd
      rw [heq, List.map_append, List.map_cons, List.nodup_append] at hd'
      rintro a (ha | ha) he
      · exact hd'.2.2 (key a) (List.mem_map_of_mem ha) (key b) List.mem_cons_self he.symm
      · exact (List.nodup_cons.mp hd'.2.1).1 (he ▸ List.mem_map_of_mem ha)
    have hmem : ∀ a, a ∈ done ∨ a ∈ todo → a ∈ as := by
      rintro a (ha | ha) <;> simp [heq, ha]
    apply ih (done ++ [b]) (by simp [heq])
    · intro a ha
      exact hready s b hb a (hmem a (Or.inr ha)) (hne a (Or.inr ha))
        (htodo a (List.mem_cons_of_mem b ha))
    · intro a ha
      rcases List.mem_append.mp ha with ha | ha
      · exact hsettled s b hb a (hmem a (Or.inl ha)) (hne a (Or.inl ha)) (hdone a ha)
      · rw [List.mem_singleton.mp ha]
        exact hown s b hb (htodo b List.mem_cons_self)

end settling

/-- A step that changes nothing that can be seen on a settled item, over a list of such items. -/
theorem foldl_same {β : Type*} (view : σ → β) (Settled : σ → α → Prop)
    (hcongr : ∀ s s' a, view s' = view s → Settled s a → Settled s' a)
    (hstep : ∀ s a, Settled s a → view (step s a) = view s) (as : List α) (s : σ)
    (hs : ∀ a ∈ as, Settled s a) : view (as.foldl step s) = view s := by
  induction as generalizing s with
  | nil => rfl
  | cons a as ih =>
    have hfirst : view (step s a) = view s := hstep s a (hs a List.mem_cons_self)
    have hrest := ih (step s a)
      (fun b hb => hcongr s _ b hfirst (hs b (List.mem_cons_of_mem a hb)))
    exact hrest.trans hfirst

end GwsMigrator.Runs
