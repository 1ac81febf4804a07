import GwsMigrator.Metering
import Mathlib.Algebra.BigOperators.Ring.Finset
import Mathlib.Algebra.Order.BigOperators.Group.Finset

/-! A meter that several callers share. A caller who finds less than a unit takes what there is
and stays away while the rest of it flows in, which nobody is told of. -/
namespace GwsMigrator.Metering

/-- A call: when the meter was asked, what it gave, and when the caller was back. -/
structure Call (ι K : Type*) where
  caller : ι
  taken : K
  got : K
  returned : K

section total

variable {β K : Type*} [Field K]

/-- What `f` adds up to over the elements for which `p` holds. -/
def total (p : β → Prop) [DecidablePred p] (f : β → K) : List β → K
  | [] => 0
  | x :: xs => (if p x then f x else 0) + total p f xs

variable (p q : β → Prop) [DecidablePred p] [DecidablePred q] (f g : β → K)

theorem total_one (xs : List β) : total p (fun _ => (1 : K)) xs = (xs.countP p : K) := by
  induction xs with
  | nil => simp [total]
  | cons x xs ih =>
    rw [total, ih, List.countP_cons]
    by_cases hp : p x
    · simp [hp, add_comm]
    · simp [hp]

theorem total_false (xs : List β) : total (fun _ => False) f xs = 0 := by
  induction xs with
  | nil => rfl
  | cons x xs ih => simp [total, ih]

/-- The total of all callers is that of each of them. -/
theorem sum_total {ι : Type*} [Fintype ι] [DecidableEq ι] (of : β → ι) (xs : List β) :
    ∑ i, total (fun x => of x = i ∧ p x) f xs = total p f xs := by
  induction xs with
  | nil => simp [total]
  | cons x xs ih =>
    simp only [total]
    rw [Finset.sum_add_distrib, ih]
    by_cases hp : p x <;> simp [hp]

variable [LinearOrder K] [IsStrictOrderedRing K] {p q f g}

theorem total_le_total {xs : List β} (h : ∀ x ∈ xs, p x → q x ∧ f x ≤ g x)
    (hg : ∀ x ∈ xs, 0 ≤ g x) : total p f xs ≤ total q g xs := by
  induction xs with
  | nil => exact le_refl _
  | cons x xs ih =>
    have hrest := ih (fun y hy => h y (List.mem_cons_of_mem x hy))
      (fun y hy => hg y (List.mem_cons_of_mem x hy))
    have hx := h x List.mem_cons_self
    have hpos := hg x List.mem_cons_self
    rw [total, total]
    by_cases hp : p x
    · obtain ⟨hq, hle⟩ := hx hp
      rw [if_pos hp, if_pos hq]
      linarith
    · rw [if_neg hp]
      split <;> linarith

end total

variable {ι K : Type*} [Field K] [LinearOrder K]

/-- The calls so far, the latest first, with what the meter holds after it. Nobody is in two calls
at a time. -/
inductive Shared (capacity rate : K) : List (Call ι K) → K → Prop
  | none {level : K} (nonneg : 0 ≤ level) (room : level ≤ capacity) : Shared capacity rate [] level
  | next {c : Call ι K} {calls : List (Call ι K)} {level level' : K}
      (before : Shared capacity rate calls level) (nonneg : 0 ≤ level') (gets : 0 ≤ c.got)
      (room : level' + c.got ≤ capacity)
      (flows : ∀ x ∈ calls.head?, x.taken ≤ c.taken ∧
        level' + c.got ≤ level + rate * (c.taken - x.taken))
      (waited : 1 ≤ c.got + rate * (c.returned - c.taken)) (back : c.taken ≤ c.returned)
      (alone : ∀ x ∈ calls, x.caller = c.caller → x.returned ≤ c.taken) :
      Shared capacity rate (c :: calls) level'

variable {capacity rate level : K} {calls : List (Call ι K)}

theorem Shared.nonneg (h : Shared capacity rate calls level) : 0 ≤ level := by
  cases h with
  | none nonneg => exact nonneg
  | next _ nonneg => exact nonneg

theorem Shared.taken_le {c : Call ι K} (h : Shared capacity rate (c :: calls) level) :
    ∀ x ∈ calls, x.taken ≤ c.taken := by
  induction calls generalizing c level with
  | nil => simp
  | cons c₀ calls ih =>
    cases h with
    | next before _ _ _ flows =>
      obtain ⟨hle, -⟩ := flows c₀ rfl
      intro x hx
      rcases List.mem_cons.mp hx with rfl | hx
      · exact hle
      · exact (ih before x hx).trans hle

/-- What holds of each call by itself. -/
theorem Shared.each (h : Shared capacity rate calls level) : ∀ x ∈ calls,
    0 ≤ x.got ∧ 1 ≤ x.got + rate * (x.returned - x.taken) ∧ x.taken ≤ x.returned := by
  induction h with
  | none => simp
  | next _ _ gets _ _ waited back _ ih =>
    intro x hx
    rcases List.mem_cons.mp hx with rfl | hx
    · exact ⟨gets, waited, back⟩
    · exact ih x hx

variable [IsStrictOrderedRing K]

/-- What the calls from a moment on got was in the meter then, or flowed in. -/
theorem Shared.got_since {c : Call ι K} (h : Shared capacity rate (c :: calls) level)
    (hrate : 0 ≤ rate) {s : K} (hs : s ≤ c.taken) :
    total (fun x => s ≤ x.taken) Call.got (c :: calls) ≤
      capacity - level + rate * (c.taken - s) := by
  induction calls generalizing c level with
  | nil =>
    cases h with
    | next _ _ _ room =>
      have hflow : 0 ≤ rate * (c.taken - s) := mul_nonneg hrate (sub_nonneg.mpr hs)
      simp only [total, if_pos hs]
      linarith
  | cons c₀ calls ih =>
    cases h with
    | next before _ _ room flows =>
      obtain ⟨-, hflows⟩ := flows c₀ rfl
      rw [total, if_pos hs]
      by_cases hs₀ : s ≤ c₀.taken
      · have hbefore := ih before hs₀
        have hflow : rate * (c.taken - s) =
            rate * (c.taken - c₀.taken) + rate * (c₀.taken - s) := by ring
        linarith
      · -- the earlier calls are all outside
        have hnone : total (fun x => s ≤ x.taken) Call.got (c₀ :: calls) ≤
            total (fun _ => False) (fun _ => (0 : K)) (c₀ :: calls) := by
          refine total_le_total (fun x hx hsx => absurd hsx (fun hle => hs₀ ?_))
            (fun _ _ => le_refl 0)
          rcases List.mem_cons.mp hx with rfl | hx
          · exact hle
          · exact hle.trans (before.taken_le x hx)
        have hflow : 0 ≤ rate * (c.taken - s) := mul_nonneg hrate (sub_nonneg.mpr hs)
        rw [total_false] at hnone
        linarith

/-- What the calls of a window got. -/
theorem Shared.got_window (h : Shared capacity rate calls level) (hcapacity : 0 ≤ capacity)
    (hrate : 0 ≤ rate) {s e : K} (hse : s ≤ e) :
    total (fun x => s ≤ x.taken ∧ x.taken ≤ e) Call.got calls ≤ capacity + rate * (e - s) := by
  have hflow : 0 ≤ rate * (e - s) := mul_nonneg hrate (sub_nonneg.mpr hse)
  induction calls generalizing level with
  | nil => simpa [total] using add_nonneg hcapacity hflow
  | cons c calls ih =>
    by_cases hin : s ≤ c.taken ∧ c.taken ≤ e
    · have hsince := h.got_since hrate hin.1
      have hsub : total (fun x => s ≤ x.taken ∧ x.taken ≤ e) Call.got (c :: calls) ≤
          total (fun x => s ≤ x.taken) Call.got (c :: calls) :=
        total_le_total (fun x _ hx => ⟨hx.1, le_refl _⟩) (fun x hx => (h.each x hx).1)
      have hlength : rate * (c.taken - s) ≤ rate * (e - s) :=
        mul_le_mul_of_nonneg_left (by linarith [hin.2]) hrate
      linarith [h.nonneg]
    · cases h with
      | next before =>
        rw [total, if_neg hin, zero_add]
        exact ih before

variable [DecidableEq ι]

/-- The calls of one caller do not overlap, so that a window holds no more of them than it is
long. -/
theorem Shared.away (h : Shared capacity rate calls level) (i : ι) {s e : K} (hse : s ≤ e) :
    total (fun x => x.caller = i ∧ s ≤ x.taken ∧ x.returned ≤ e) (fun x => x.returned - x.taken)
      calls ≤ e - s := by
  induction h generalizing e with
  | none => simpa [total] using hse
  | @next c calls _ _ before nonneg gets room flows waited back alone ih =>
    rw [total]
    split
    · next hin =>
      obtain ⟨hcaller, hs, he⟩ := hin
      have hearlier := ih hs
      have hsame : total (fun x => x.caller = i ∧ s ≤ x.taken ∧ x.returned ≤ e)
          (fun x => x.returned - x.taken) calls ≤
          total (fun x => x.caller = i ∧ s ≤ x.taken ∧ x.returned ≤ c.taken)
            (fun x => x.returned - x.taken) calls := by
        refine total_le_total (fun x hx hin => ⟨⟨hin.1, hin.2.1, ?_⟩, le_refl _⟩)
          (fun x hx => sub_nonneg.mpr (before.each x hx).2.2)
        exact alone x hx (hin.1.trans hcaller.symm)
      linarith
    · rw [zero_add]
      exact ih hse

omit [IsStrictOrderedRing K] in
/-- A caller is in one call at most when a window begins. -/
theorem Shared.across_le_one (h : Shared capacity rate calls level) (i : ι) (s : K) :
    calls.countP (fun x => x.caller = i ∧ x.taken < s ∧ s ≤ x.returned) ≤ 1 := by
  induction h with
  | none => simp
  | @next c calls _ _ before nonneg gets room flows waited back alone ih =>
    rw [List.countP_cons]
    by_cases hin : c.caller = i ∧ c.taken < s ∧ s ≤ c.returned
    · have hnone : calls.countP (fun x => x.caller = i ∧ x.taken < s ∧ s ≤ x.returned) = 0 := by
        rw [List.countP_eq_zero]
        intro x hx hacross
        obtain ⟨hcaller, -, hback⟩ := of_decide_eq_true hacross
        have hle := alone x hx (hcaller.trans hin.1.symm)
        exact absurd (hback.trans hle) hin.2.1.not_ge
      rw [hnone]
      simp [hin]
    · simpa [hin] using ih

/-- The calls of one caller that end in a window: one that was under way when it began, and those
for which the meter or the time of the caller has paid. -/
theorem Shared.count_caller (h : Shared capacity rate calls level) (hrate : 0 ≤ rate) (i : ι)
    {s e : K} (hse : s ≤ e) :
    total (fun x => x.caller = i ∧ s ≤ x.returned ∧ x.returned ≤ e) (fun _ => (1 : K)) calls ≤
      1 + rate * (e - s) +
        total (fun x => x.caller = i ∧ s ≤ x.taken ∧ x.taken ≤ e) Call.got calls := by
  have hsplit : ∀ xs : List (Call ι K), (∀ x ∈ xs, x ∈ calls) →
      total (fun x => x.caller = i ∧ s ≤ x.returned ∧ x.returned ≤ e) (fun _ => (1 : K)) xs ≤
        total (fun x => x.caller = i ∧ x.taken < s ∧ s ≤ x.returned) (fun _ => (1 : K)) xs +
        (total (fun x => x.caller = i ∧ s ≤ x.taken ∧ x.taken ≤ e) Call.got xs +
          rate * total (fun x => x.caller = i ∧ s ≤ x.taken ∧ x.returned ≤ e)
            (fun x => x.returned - x.taken) xs) := by
    intro xs
    induction xs with
    | nil => simp [total]
    | cons x xs ih =>
      intro hxs
      have hrest := ih (fun y hy => hxs y (List.mem_cons_of_mem x hy))
      obtain ⟨hgot, hwaited, hback⟩ := h.each x (hxs x List.mem_cons_self)
      have hstay : 0 ≤ rate * (x.returned - x.taken) :=
        mul_nonneg hrate (sub_nonneg.mpr hback)
      simp only [total, mul_add]
      by_cases hin : x.caller = i ∧ s ≤ x.returned ∧ x.returned ≤ e
      · rw [if_pos hin]
        rcases lt_or_ge x.taken s with hearly | hlate
        · rw [if_pos ⟨hin.1, hearly, hin.2.1⟩]
          have hnot : ¬ (x.caller = i ∧ s ≤ x.taken ∧ x.taken ≤ e) :=
            fun hnot => absurd hnot.2.1 hearly.not_ge
          have hnot' : ¬ (x.caller = i ∧ s ≤ x.taken ∧ x.returned ≤ e) :=
            fun hnot => absurd hnot.2.1 hearly.not_ge
          rw [if_neg hnot, if_neg hnot']
          linarith
        · rw [if_neg (fun hnot => absurd hnot.2.1 hlate.not_gt),
            if_pos ⟨hin.1, hlate, hback.trans hin.2.2⟩, if_pos ⟨hin.1, hlate, hin.2.2⟩]
          linarith
      · rw [if_neg hin]
        split <;> split <;> split <;> linarith
  have hall := hsplit calls (fun _ hx => hx)
  have hacross : total (fun x => x.caller = i ∧ x.taken < s ∧ s ≤ x.returned)
      (fun _ => (1 : K)) calls ≤ 1 := by
    rw [total_one]
    exact_mod_cast h.across_le_one i s
  have haway := mul_le_mul_of_nonneg_left (h.away i hse) hrate
  linarith

/-- A window holds what the capacity and the rate allow, and for each caller one call and again
what the rate allows. -/
theorem Shared.count_window [Fintype ι] (h : Shared capacity rate calls level)
    (hcapacity : 0 ≤ capacity) (hrate : 0 ≤ rate) {s e : K} (hse : s ≤ e) :
    ((calls.countP (fun x => s ≤ x.returned ∧ x.returned ≤ e) : ℕ) : K) ≤
      capacity + Fintype.card ι + (Fintype.card ι + 1) * (rate * (e - s)) := by
  have hcallers : ∑ i, total (fun x : Call ι K => x.caller = i ∧ s ≤ x.returned ∧ x.returned ≤ e)
        (fun _ => (1 : K)) calls ≤
      ∑ i, (1 + rate * (e - s) +
        total (fun x : Call ι K => x.caller = i ∧ s ≤ x.taken ∧ x.taken ≤ e) Call.got calls) :=
    Finset.sum_le_sum (fun i _ => h.count_caller hrate i hse)
  have hgot := h.got_window hcapacity hrate hse
  rw [sum_total, total_one, Finset.sum_add_distrib, sum_total, Finset.sum_const, Finset.card_univ,
    nsmul_eq_mul] at hcallers
  have hring : (Fintype.card ι : K) * (1 + rate * (e - s)) + (capacity + rate * (e - s)) =
      capacity + Fintype.card ι + (Fintype.card ι + 1) * (rate * (e - s)) := by ring
  linarith

end GwsMigrator.Metering
