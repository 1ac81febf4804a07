import Mathlib.Data.List.Nodup
import Mathlib.Logic.Function.Basic

/-! Copies of items at a far side, and the record that says which copy belongs
to which item. The record is right when every item has exactly the copy recorded. -/
namespace GwsMigrator.Mirror

variable {ι κ ε : Type*}

/-- The id of every live copy, with the item it was made for. -/
abbrev Copies (ι κ : Type*) := List (ι × κ)

/-- What one event of a log does to the copies. -/
inductive Effect (ι κ : Type*) where
  | create (id : ι) (item : κ)
  | delete (id : ι)
  | keep

def Effect.id? : Effect ι κ → Option ι
  | .create i _ => some i
  | .delete _ => none
  | .keep => none

variable [DecidableEq ι]

def Effect.apply : Effect ι κ → Copies ι κ → Copies ι κ
  | .create i k, live => (i, k) :: live
  | .delete i, live => live.filter (fun c => c.1 ≠ i)
  | .keep, live => live

variable (effect : ε → Effect ι κ)

/-- The copies that are live after a log, newest event first. -/
def replay : List ε → Copies ι κ
  | [] => []
  | e :: log => (effect e).apply (replay log)

/-- Every id that was ever given to a copy. -/
def issued : List ε → List ι
  | [] => []
  | e :: log => (effect e).id?.toList ++ issued log

/-- Only issued ids are live. -/
theorem replay_subset_issued (log : List ε) :
    ∀ c ∈ replay effect log, c.1 ∈ issued effect log := by
  induction log with
  | nil => intro c hc; exact absurd hc List.not_mem_nil
  | cons e log ih =>
    intro c hc
    rw [replay] at hc
    rw [issued, List.mem_append]
    cases he : effect e with
    | create i k =>
      rw [he] at hc
      rcases List.mem_cons.mp hc with rfl | hc
      · exact Or.inl (by simp [Effect.id?])
      · exact Or.inr (ih c hc)
    | delete i =>
      rw [he] at hc
      exact Or.inr (ih c (List.mem_filter.mp hc).1)
    | keep =>
      rw [he] at hc
      exact Or.inr (ih c hc)

variable [DecidableEq κ]

/-- The ids of the live copies of one item. -/
def copiesOf (live : Copies ι κ) (k : κ) : List ι :=
  (live.filter (fun c => c.2 = k)).map Prod.fst

omit [DecidableEq ι] in
theorem mem_copiesOf {live : Copies ι κ} {k : κ} {i : ι} : i ∈ copiesOf live k ↔ (i, k) ∈ live := by
  simp [copiesOf]

omit [DecidableEq ι] in
theorem copiesOf_cons (live : Copies ι κ) (i : ι) (k k' : κ) :
    copiesOf ((i, k) :: live) k' = if k = k' then i :: copiesOf live k' else copiesOf live k' := by
  by_cases h : k = k' <;> simp [copiesOf, h]

/-- Deleting an id takes it out of the copies of every item. -/
theorem copiesOf_delete (live : Copies ι κ) (i : ι) (k : κ) :
    copiesOf (live.filter (fun c => c.1 ≠ i)) k = (copiesOf live k).filter (fun j => j ≠ i) := by
  simp only [copiesOf, List.filter_filter, List.filter_map]
  congr 1
  apply List.filter_congr
  intro c _
  simp [Bool.and_comm]

/-- The record names the one live copy of each item, and no other copy is live. -/
structure Coherent (record : κ → Option ι) (live : Copies ι κ) : Prop where
  nodup : (live.map Prod.fst).Nodup
  copies : ∀ k, copiesOf live k = (record k).toList

variable {record : κ → Option ι} {live : Copies ι κ}

omit [DecidableEq ι] in
theorem coherent_empty : Coherent (fun _ : κ => (none : Option ι)) [] :=
  ⟨List.nodup_nil, fun _ => rfl⟩

omit [DecidableEq ι] in
/-- A fresh copy of an item without one, recorded, keeps the record right. -/
theorem Coherent.create (h : Coherent record live) {k : κ} {i : ι} (hk : record k = none)
    (hi : i ∉ live.map Prod.fst) :
    Coherent (Function.update record k (some i)) ((i, k) :: live) := by
  refine ⟨List.nodup_cons.mpr ⟨hi, h.nodup⟩, fun k' => ?_⟩
  rw [copiesOf_cons]
  by_cases hkk : k = k'
  · subst hkk
    simp [h.copies k, hk]
  · rw [if_neg hkk, Function.update_of_ne (Ne.symm hkk), h.copies k']

/-- Deleting the recorded copy and forgetting it keeps the record right. -/
theorem Coherent.delete (h : Coherent record live) {k : κ} {i : ι} (hk : record k = some i) :
    Coherent (Function.update record k none) (live.filter (fun c => c.1 ≠ i)) := by
  refine ⟨h.nodup.sublist ((List.filter_sublist).map Prod.fst), fun k' => ?_⟩
  rw [copiesOf_delete, h.copies k']
  by_cases hkk : k' = k
  · subst hkk
    simp [hk]
  · rw [Function.update_of_ne hkk]
    cases hr : record k' with
    | none => rfl
    | some j =>
      have hne : j ≠ i := by
        rintro rfl
        have hj : (j, k') ∈ live := mem_copiesOf.mp (by simp [h.copies k', hr])
        have hj' : (j, k) ∈ live := mem_copiesOf.mp (by simp [h.copies k, hk])
        have := List.inj_on_of_nodup_map h.nodup hj hj' rfl
        exact hkk (congrArg Prod.snd this)
      simp [hne]

/-- A live copy, if an item has one, is the one its record names. -/
def Covered (record : κ → Option ι) (live : Copies ι κ) : Prop :=
  ∀ i k, (i, k) ∈ live → record k = some i

omit [DecidableEq ι] in
theorem Covered.create (h : Covered record live) {k : κ} {i : ι} (hk : record k = none) :
    Covered (Function.update record k (some i)) ((i, k) :: live) := by
  intro j k' hj
  rcases List.mem_cons.mp hj with hj | hj
  · obtain ⟨rfl, rfl⟩ := Prod.mk.inj hj
    exact Function.update_self ..
  · have hr := h j k' hj
    have hne : k' ≠ k := by
      rintro rfl
      rw [hk] at hr
      exact absurd hr (by simp)
    rw [Function.update_of_ne hne, hr]

omit [DecidableEq ι] in
/-- The record of an item without a live copy may change freely. -/
theorem Covered.forget (h : Covered record live) {k : κ} (hk : ∀ i, (i, k) ∉ live)
    (r : Option ι) : Covered (Function.update record k r) live := by
  intro j k' hj
  have hne : k' ≠ k := fun he => hk j (he ▸ hj)
  rw [Function.update_of_ne hne, h j k' hj]

end GwsMigrator.Mirror
