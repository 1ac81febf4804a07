import Mathlib.Data.List.Nodup
import Mathlib.Logic.Function.Basic

/-! A store of items with ids and addresses. A put under an address replaces the item that
is there, an add makes a new item under a free address. -/
namespace GwsMigrator.NamedStore

structure Item (A C : Type*) where
  address : A
  content : C

abbrev Contents (ι A C : Type*) := ι → Option (Item A C)

/-- A write with the id and the address the store gave it. -/
inductive Write (ι A C : Type*) where
  | put (id : ι) (address : A) (content : C)
  | add (id : ι) (address : A) (content : C)
  | set (id : ι) (content : C)

variable {ι A C : Type*}

namespace Write

def id : Write ι A C → ι
  | put id .. | add id .. | set id _ => id

def content : Write ι A C → C
  | put _ _ content | add _ _ content | set _ content => content

/-- Where an upload leaves its item. -/
def address : Write ι A C → Option A
  | put _ a _ | add _ a _ => some a
  | set .. => none

/-- The write is an upload, not the update of a known item. -/
def Uploads : Write ι A C → Prop
  | put .. | add .. => True
  | set .. => False

variable [DecidableEq ι]

def apply (s : Contents ι A C) : Write ι A C → Contents ι A C
  | put id address content | add id address content =>
    Function.update s id (some ⟨address, content⟩)
  | set id content => Function.update s id ((s id).map (fun x => { x with content := content }))

end Write

def Free (s : Contents ι A C) (a : A) : Prop := ∀ i x, s i = some x → x.address ≠ a

/-- Names are unique. -/
def Unique (s : Contents ι A C) : Prop :=
  ∀ i j x y, s i = some x → s j = some y → x.address = y.address → i = j

/-- How the store answers a write: a put finds the item at its address or makes a new one. -/
def Write.Lawful (s : Contents ι A C) : Write ι A C → Prop
  | put id a _ => (∃ x, s id = some x ∧ x.address = a) ∨ (s id = none ∧ Free s a)
  | add id a _ => s id = none ∧ Free s a
  | set .. => True

variable [DecidableEq ι]

/-- What the store holds after the writes, newest first. -/
def contents (s : Contents ι A C) (ws : List (Write ι A C)) : Contents ι A C :=
  ws.foldr (fun w s => w.apply s) s

def Lawful (s : Contents ι A C) : List (Write ι A C) → Prop
  | [] => True
  | w :: ws => w.Lawful (contents s ws) ∧ Lawful s ws

/-- Where the uploads of a run have left their items. -/
def addresses (ws : List (Write ι A C)) : List A := ws.filterMap Write.address

/-- No put of the run goes to the address of an earlier upload. -/
def Unclobbered : List (Write ι A C) → Prop
  | [] => True
  | w :: ws => (∀ id a c, w = .put id a c → a ∉ addresses ws) ∧ Unclobbered ws

variable {s : Contents ι A C}

theorem Write.apply_id {w : Write ι A C} (h : w.Uploads) :
    ∃ x, w.apply s w.id = some x ∧ x.content = w.content ∧ w.address = some x.address := by
  cases w with
  | put id a c => exact ⟨⟨a, c⟩, Function.update_self .., rfl, rfl⟩
  | add id a c => exact ⟨⟨a, c⟩, Function.update_self .., rfl, rfl⟩
  | set => exact h.elim

theorem Write.apply_of_ne {w : Write ι A C} {i : ι} (h : i ≠ w.id) : w.apply s i = s i := by
  cases w <;> exact Function.update_of_ne h ..

theorem contents_cons (w : Write ι A C) (ws : List (Write ι A C)) :
    contents s (w :: ws) = w.apply (contents s ws) := rfl

omit [DecidableEq ι] in
theorem mem_addresses_cons {w : Write ι A C} {ws : List (Write ι A C)} {a : A} :
    a ∈ addresses (w :: ws) ↔ w.address = some a ∨ a ∈ addresses ws := by
  simp only [addresses, List.filterMap_cons]
  cases w.address with
  | none => simp
  | some b => simp [eq_comm]

/-- What was uploaded stays in the store, at an address where the run has left something. -/
theorem exists_of_uploaded {ws : List (Write ι A C)} (hws : ∀ w ∈ ws, w.Uploads)
    {w : Write ι A C} (hw : w ∈ ws) :
    ∃ x, contents s ws w.id = some x ∧ x.address ∈ addresses ws := by
  induction ws with
  | nil => exact absurd hw List.not_mem_nil
  | cons w₁ ws ih =>
    rw [contents_cons]
    by_cases hid : w.id = w₁.id
    · obtain ⟨x, hx, -, ha⟩ := Write.apply_id (s := contents s ws) (hws w₁ List.mem_cons_self)
      rw [hid]
      exact ⟨x, hx, mem_addresses_cons.mpr (Or.inl ha)⟩
    · rw [Write.apply_of_ne hid]
      rcases List.mem_cons.mp hw with rfl | hw
      · exact absurd rfl hid
      · obtain ⟨x, hx, ha⟩ := ih (fun w' hw' => hws w' (List.mem_cons_of_mem w₁ hw')) hw
        exact ⟨x, hx, mem_addresses_cons.mpr (Or.inr ha)⟩

/-- Under distinct ids, what the run has left somewhere is still there. -/
theorem exists_at_address {ws : List (Write ι A C)} (hws : ∀ w ∈ ws, w.Uploads)
    (hnodup : (ws.map Write.id).Nodup) {a : A} (ha : a ∈ addresses ws) :
    ∃ w ∈ ws, ∃ x, contents s ws w.id = some x ∧ x.address = a := by
  induction ws with
  | nil => exact absurd ha List.not_mem_nil
  | cons w₁ ws ih =>
    obtain ⟨hnew, hnodup⟩ := List.nodup_cons.mp hnodup
    rw [contents_cons]
    rcases mem_addresses_cons.mp ha with ha | ha
    · obtain ⟨x, hx, -, hxa⟩ := Write.apply_id (s := contents s ws) (hws w₁ List.mem_cons_self)
      exact ⟨w₁, List.mem_cons_self, x, hx, Option.some.inj (hxa.symm.trans ha)⟩
    · obtain ⟨w, hw, x, hx, hxa⟩ := ih (fun w' hw' => hws w' (List.mem_cons_of_mem w₁ hw')) hnodup
        ha
      have hid : w.id ≠ w₁.id := fun he => hnew (he ▸ List.mem_map_of_mem hw)
      exact ⟨w, List.mem_cons_of_mem w₁ hw, x, (Write.apply_of_ne hid).trans hx, hxa⟩

/-- Uploads under distinct ids all keep their content. -/
theorem content_of_nodup {ws : List (Write ι A C)} (hws : ∀ w ∈ ws, w.Uploads)
    (hnodup : (ws.map Write.id).Nodup) {w : Write ι A C} (hw : w ∈ ws) :
    ∃ x, contents s ws w.id = some x ∧ x.content = w.content := by
  induction ws with
  | nil => exact absurd hw List.not_mem_nil
  | cons w₁ ws ih =>
    obtain ⟨hnew, hnodup⟩ := List.nodup_cons.mp hnodup
    rw [contents_cons]
    rcases List.mem_cons.mp hw with rfl | hw
    · obtain ⟨x, hx, hc, -⟩ := Write.apply_id (s := contents s ws) (hws w List.mem_cons_self)
      exact ⟨x, hx, hc⟩
    · have hid : w.id ≠ w₁.id := fun he => hnew (he ▸ List.mem_map_of_mem hw)
      rw [Write.apply_of_ne hid]
      exact ih (fun w' hw' => hws w' (List.mem_cons_of_mem w₁ hw')) hnodup hw

theorem Unique.apply (h : Unique s) {w : Write ι A C} (hw : w.Lawful s) : Unique (w.apply s) := by
  -- an upload under `id` at `a` where nothing else is
  have hplace : ∀ (id : ι) (a : A) (c : C), (∀ i x, s i = some x → x.address = a → i = id) →
      Unique (Function.update s id (some ⟨a, c⟩)) := by
    intro id a c hfree i j x y hx hy hxy
    rw [Function.update_apply] at hx hy
    by_cases hi : i = id <;> by_cases hj : j = id
    · rw [hi, hj]
    · rw [if_pos hi] at hx
      rw [if_neg hj] at hy
      cases hx
      exact absurd (hfree j y hy hxy.symm) hj
    · rw [if_neg hi] at hx
      rw [if_pos hj] at hy
      cases hy
      exact absurd (hfree i x hx hxy) hi
    · rw [if_neg hi] at hx
      rw [if_neg hj] at hy
      exact h i j x y hx hy hxy
  cases w with
  | put id a c =>
    apply hplace
    rcases hw with ⟨x₀, hx₀, ha⟩ | ⟨-, hfree⟩
    · exact fun i x hx hxa => h i id x x₀ hx hx₀ (hxa.trans ha.symm)
    · exact fun i x hx hxa => absurd hxa (hfree i x hx)
  | add id a c => exact hplace id a c (fun i x hx hxa => absurd hxa (hw.2 i x hx))
  | set id c =>
    -- a new content leaves the address as it is
    have haddress : ∀ i x, (Write.set (A := A) id c).apply s i = some x →
        ∃ x₀, s i = some x₀ ∧ x₀.address = x.address := by
      intro i x hx
      simp only [Write.apply, Function.update_apply] at hx
      by_cases hi : i = id
      · subst hi
        rw [if_pos rfl] at hx
        obtain ⟨x₀, hx₀, rfl⟩ := Option.map_eq_some_iff.mp hx
        exact ⟨x₀, hx₀, rfl⟩
      · rw [if_neg hi] at hx
        exact ⟨x, hx, rfl⟩
    intro i j x y hx hy hxy
    obtain ⟨x₀, hx₀, hxa⟩ := haddress i x hx
    obtain ⟨y₀, hy₀, hya⟩ := haddress j y hy
    exact h i j x₀ y₀ hx₀ hy₀ (hxa.trans (hxy.trans hya.symm))

theorem Unique.contents (h : Unique s) {ws : List (Write ι A C)} (hws : Lawful s ws) :
    Unique (contents s ws) := by
  induction ws with
  | nil => exact h
  | cons w ws ih => exact (ih hws.2).apply hws.1

theorem nodup_of_unclobbered {ws : List (Write ι A C)} (hup : ∀ w ∈ ws, w.Uploads)
    (hlaw : Lawful s ws) (h : Unclobbered ws) : (ws.map Write.id).Nodup := by
  induction ws with
  | nil => exact List.nodup_nil
  | cons w ws ih =>
    have hup' : ∀ w' ∈ ws, w'.Uploads := fun w' hw' => hup w' (List.mem_cons_of_mem w hw')
    rw [List.map_cons, List.nodup_cons]
    refine ⟨fun hmem => ?_, ih hup' hlaw.2 h.2⟩
    obtain ⟨w', hw', hid⟩ := List.mem_map.mp hmem
    obtain ⟨x, hx, ha⟩ := exists_of_uploaded (s := s) hup' hw'
    -- the item that `w'` made is there, so `w` did not make a new one
    rw [hid] at hx
    have hnew : contents s ws w.id ≠ none := by
      rw [hx]
      simp
    cases w with
    | put id a c =>
      rcases hlaw.1 with ⟨y, hy, hya⟩ | ⟨hnone, -⟩
      · obtain rfl := Option.some.inj (hx.symm.trans hy)
        exact h.1 id a c rfl (hya ▸ ha)
      · exact hnew hnone
    | add id a c => exact hnew hlaw.1.1
    | set id c => exact hup _ List.mem_cons_self

theorem unclobbered_of_nodup (hs : Unique s) {ws : List (Write ι A C)}
    (hup : ∀ w ∈ ws, w.Uploads) (hlaw : Lawful s ws) (h : (ws.map Write.id).Nodup) :
    Unclobbered ws := by
  induction ws with
  | nil => trivial
  | cons w ws ih =>
    have hup' : ∀ w' ∈ ws, w'.Uploads := fun w' hw' => hup w' (List.mem_cons_of_mem w hw')
    obtain ⟨hnew, hnodup⟩ := List.nodup_cons.mp h
    refine ⟨?_, ih hup' hlaw.2 hnodup⟩
    rintro id a c rfl ha
    obtain ⟨w', hw', x, hx, hxa⟩ := exists_at_address (s := s) hup' hnodup ha
    rcases hlaw.1 with ⟨y, hy, hya⟩ | ⟨-, hfree⟩
    · -- the put replaced the item of `w'`
      have hid := hs.contents hlaw.2 _ _ x y hx hy (hxa.trans hya.symm)
      exact hnew (List.mem_map.mpr ⟨w', hw', hid⟩)
    · exact hfree _ x hx hxa

/-- Uploads under distinct ids are those where no put goes to where an earlier upload is. -/
theorem nodup_iff_unclobbered (hs : Unique s) {ws : List (Write ι A C)}
    (hup : ∀ w ∈ ws, w.Uploads) (hlaw : Lawful s ws) :
    (ws.map Write.id).Nodup ↔ Unclobbered ws :=
  ⟨unclobbered_of_nodup hs hup hlaw, nodup_of_unclobbered hup hlaw⟩

end GwsMigrator.NamedStore
