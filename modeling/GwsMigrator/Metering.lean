import Mathlib.Algebra.Order.Field.Basic
import Mathlib.Algebra.Order.Floor.Semiring
import Mathlib.Tactic.Linarith
import Mathlib.Tactic.Ring

/-! Takes from a meter that refills at a constant rate up to a capacity, and how many of
them any window of time can hold. -/
namespace GwsMigrator.Metering

variable {K : Type*} [Field K] [LinearOrder K]

/-- The times of the takes so far, newest first, with what the meter holds after the newest.
A take needs a whole unit, out of what was left and what flowed in since. -/
inductive Metered (capacity rate : K) : List K → K → Prop
  | first {t level : K} (nonneg : 0 ≤ level) (room : level ≤ capacity - 1) :
      Metered capacity rate [t] level
  | next {t t' level level' : K} {times : List K}
      (before : Metered capacity rate (t :: times) level) (later : t ≤ t')
      (nonneg : 0 ≤ level') (room : level' ≤ capacity - 1)
      (paid : level' + 1 ≤ level + rate * (t' - t)) :
      Metered capacity rate (t' :: t :: times) level'

variable {capacity rate level : K} {times : List K}

theorem Metered.nonneg (h : Metered capacity rate times level) : 0 ≤ level := by
  cases h with
  | first nonneg => exact nonneg
  | next _ _ nonneg => exact nonneg

theorem Metered.room (h : Metered capacity rate times level) : level ≤ capacity - 1 := by
  cases h with
  | first _ room => exact room
  | next _ _ _ room => exact room

theorem Metered.le_newest {t : K} (h : Metered capacity rate (t :: times) level) :
    ∀ x ∈ times, x ≤ t := by
  induction times generalizing t level with
  | nil => simp
  | cons t₀ times ih =>
    cases h with
    | next before later =>
      intro x hx
      rcases List.mem_cons.mp hx with rfl | hx
      · exact later
      · exact (ih before x hx).trans later

variable [IsStrictOrderedRing K]

/-- The takes from a moment on are paid for by what the meter held then and what flowed in. -/
theorem Metered.count_since {t : K} (h : Metered capacity rate (t :: times) level)
    (hrate : 0 ≤ rate) {s : K} (hs : s ≤ t) :
    (((t :: times).countP (fun x => s ≤ x) : ℕ) : K) ≤ capacity - level + rate * (t - s) := by
  induction times generalizing t level with
  | nil =>
    have hroom := h.room
    have hflow : 0 ≤ rate * (t - s) := mul_nonneg hrate (sub_nonneg.mpr hs)
    simp only [List.countP_cons, List.countP_nil, hs, decide_true, if_true]
    push_cast
    linarith
  | cons t₀ times ih =>
    cases h with
    | next before later nonneg room paid =>
      rw [List.countP_cons_of_pos (by simpa using hs)]
      push_cast
      by_cases hs₀ : s ≤ t₀
      · have hbefore := ih before hs₀
        have hflow : rate * (t - s) = rate * (t - t₀) + rate * (t₀ - s) := by ring
        linarith
      · -- the earlier takes are all outside
        have hnone : (t₀ :: times).countP (fun x => s ≤ x) = 0 := by
          rw [List.countP_eq_zero]
          intro x hx
          have hle : x ≤ t₀ := by
            rcases List.mem_cons.mp hx with rfl | hx
            · exact le_refl _
            · exact before.le_newest x hx
          have hlt : ¬ s ≤ x := fun hsx => hs₀ (hsx.trans hle)
          simpa using hlt
        have hflow : 0 ≤ rate * (t - s) := mul_nonneg hrate (sub_nonneg.mpr hs)
        rw [hnone]
        push_cast
        linarith

/-- A window holds at most the capacity and what flows in while it lasts. -/
theorem Metered.count_window (h : Metered capacity rate times level) (hrate : 0 ≤ rate)
    {s d : K} (hd : 0 ≤ d) :
    ((times.countP (fun x => s ≤ x ∧ x ≤ s + d) : ℕ) : K) ≤ capacity + rate * d := by
  have hcapacity : 0 ≤ capacity := by linarith [h.nonneg, h.room]
  have hflow : 0 ≤ rate * d := mul_nonneg hrate hd
  induction times generalizing level with
  | nil => cases h
  | cons t times ih =>
    by_cases hout : t < s ∨ s + d < t
    · have hneg : ¬ (s ≤ t ∧ t ≤ s + d) := by
        rintro ⟨hst, htd⟩
        rcases hout with hlt | hlt
        · exact absurd hst hlt.not_ge
        · exact absurd htd hlt.not_ge
      rw [List.countP_cons_of_neg (by simpa using hneg)]
      cases h with
      | first => simpa using add_nonneg hcapacity hflow
      | next before => exact ih before
    · push Not at hout
      have hsub : (t :: times).countP (fun x => s ≤ x ∧ x ≤ s + d) ≤
          (t :: times).countP (fun x => s ≤ x) := by
        apply List.countP_mono_left
        intro x _ hx
        simpa using (of_decide_eq_true hx).1
      have hsince := h.count_since hrate hout.1
      have hlength : rate * (t - s) ≤ rate * d :=
        mul_le_mul_of_nonneg_left (by linarith [hout.2]) hrate
      have hcast : (((t :: times).countP (fun x => s ≤ x ∧ x ≤ s + d) : ℕ) : K) ≤
          (((t :: times).countP (fun x => s ≤ x) : ℕ) : K) := Nat.cast_le.mpr hsub
      linarith [h.nonneg]

/-- Rounded down, since takes are counted. -/
theorem Metered.count_window_floor [FloorSemiring K] (h : Metered capacity rate times level)
    (hrate : 0 ≤ rate) {s d : K} (hd : 0 ≤ d) :
    times.countP (fun x => s ≤ x ∧ x ≤ s + d) ≤ ⌊capacity + rate * d⌋₊ :=
  Nat.le_floor (h.count_window hrate hd)

end GwsMigrator.Metering
