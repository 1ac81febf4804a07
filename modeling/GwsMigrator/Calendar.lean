import GwsMigrator.Ranks
import Mathlib.Data.Fintype.Fin
import Mathlib.Tactic.IntervalCases

/-! The Gregorian calendar, its weekdays and weeks, and where in the year the first and last of
some weekdays fall. -/
namespace GwsMigrator.Calendar
open Ranks

inductive Weekday where
  | monday | tuesday | wednesday | thursday | friday | saturday | sunday
deriving DecidableEq

namespace Weekday

/-- Monday is 0, as in `date.weekday`. -/
def index : Weekday → ℕ
  | monday => 0
  | tuesday => 1
  | wednesday => 2
  | thursday => 3
  | friday => 4
  | saturday => 5
  | sunday => 6

/-- The weekday so many days after a Monday. -/
def ofIndex (n : ℕ) : Weekday :=
  match n % 7 with
  | 0 => monday
  | 1 => tuesday
  | 2 => wednesday
  | 3 => thursday
  | 4 => friday
  | 5 => saturday
  | _ => sunday

theorem index_lt (w : Weekday) : w.index < 7 := by
  cases w <;> decide

theorem index_ofIndex (n : ℕ) : (ofIndex n).index = n % 7 := by
  have hlt : n % 7 < 7 := Nat.mod_lt n (by decide)
  rw [ofIndex]
  interval_cases n % 7 <;> rfl

theorem index_inj {v w : Weekday} (h : v.index = w.index) : v = w := by
  cases v <;> cases w <;> first | rfl | cases h

end Weekday

def isLeap (year : ℕ) : Bool := year % 4 = 0 ∧ (year % 100 ≠ 0 ∨ year % 400 = 0)

/-- The months are counted from 1. -/
def daysInMonth (year month : ℕ) : ℕ :=
  match month with
  | 0 => 0
  | 2 => if isLeap year then 29 else 28
  | 4 | 6 | 9 | 11 => 30
  | _ => 31

def daysBeforeMonth (year : ℕ) : ℕ → ℕ
  | 0 => 0
  | month + 1 => daysBeforeMonth year month + daysInMonth year month

def daysInYear (year : ℕ) : ℕ := if isLeap year then 366 else 365

/-- The days before a year, from the first day of year 1 on. -/
def daysBeforeYear (year : ℕ) : ℕ :=
  365 * (year - 1) + (year - 1) / 4 - (year - 1) / 100 + (year - 1) / 400

theorem daysBeforeYear_succ {year : ℕ} (h : 1 ≤ year) :
    daysBeforeYear (year + 1) = daysBeforeYear year + daysInYear year := by
  obtain ⟨n, rfl⟩ := Nat.exists_eq_add_of_le' h
  -- a quotient of the years grows in the years that its divisor divides
  have hstep : ∀ k, (n + 1) / k = n / k + if (n + 1) % k = 0 then 1 else 0 := by
    intro k
    simp only [Nat.succ_div, Nat.dvd_iff_mod_eq_zero]
  have hhundred : n / 100 ≤ n / 4 := Nat.div_le_div_left (by decide) (by decide)
  rw [daysBeforeYear, daysBeforeYear, daysInYear, Nat.add_sub_cancel, Nat.add_sub_cancel,
    hstep, hstep, hstep, isLeap]
  by_cases hfour : (n + 1) % 4 = 0
  · by_cases hcentury : (n + 1) % 100 = 0
    · by_cases hlong : (n + 1) % 400 = 0
      · simp only [hfour, hcentury, hlong, ne_eq, not_true_eq_false, or_true, and_self,
          decide_true, if_true]
        omega
      · simp only [hfour, hcentury, hlong, ne_eq, not_true_eq_false, or_false, and_false,
          decide_false, Bool.false_eq_true, if_true, if_false]
        omega
    · have hlong : (n + 1) % 400 ≠ 0 := by omega
      simp only [hfour, hcentury, hlong, ne_eq, not_false_eq_true, or_false, and_self,
        decide_true, if_true, if_false]
      omega
  · have hcentury : (n + 1) % 100 ≠ 0 := by omega
    have hlong : (n + 1) % 400 ≠ 0 := by omega
    simp only [hfour, hcentury, hlong, false_and, decide_false, Bool.false_eq_true, if_false]
    omega

theorem daysBeforeYear_mono {y z : ℕ} (hy : 1 ≤ y) (h : y < z) :
    daysBeforeYear y + daysInYear y ≤ daysBeforeYear z := by
  induction z, h using Nat.le_induction with
  | base => exact (daysBeforeYear_succ hy).ge
  | succ z hz ih =>
    have hstep := daysBeforeYear_succ (hy.trans (Nat.le_of_succ_le hz))
    omega

theorem daysBeforeMonth_mono (year : ℕ) {m n : ℕ} (h : m < n) :
    daysBeforeMonth year m + daysInMonth year m ≤ daysBeforeMonth year n := by
  induction n, h using Nat.le_induction with
  | base => exact le_rfl
  | succ n _ ih => exact ih.trans (Nat.le_add_right _ _)

/-- The twelve months fill the year. -/
theorem daysBeforeMonth_end (year : ℕ) : daysBeforeMonth year 13 = daysInYear year := by
  cases h : isLeap year <;> simp [daysBeforeMonth, daysInMonth, daysInYear, h]

structure Date where
  year : ℕ
  month : ℕ
  day : ℕ
  year_pos : 1 ≤ year
  month_pos : 1 ≤ month
  month_le : month ≤ 12
  day_pos : 1 ≤ day
  day_le : day ≤ daysInMonth year month
deriving DecidableEq

namespace Date

/-- The date of a year, a month and a day, where there is one. -/
def of? (year month day : ℕ) : Option Date :=
  if h : 1 ≤ year ∧ (1 ≤ month ∧ month ≤ 12) ∧ 1 ≤ day ∧ day ≤ daysInMonth year month then
    some ⟨year, month, day, h.1, h.2.1.1, h.2.1.2, h.2.2.1, h.2.2.2⟩
  else none

theorem of?_eq_some {year month day : ℕ} {x : Date} (h : of? year month day = some x) :
    x.year = year ∧ x.month = month ∧ x.day = day := by
  rw [of?] at h
  split at h
  · cases h
    exact ⟨rfl, rfl, rfl⟩
  · cases h

def yearDay (x : Date) : ℕ := daysBeforeMonth x.year x.month + x.day

/-- `date.toordinal`. -/
def ordinal (x : Date) : ℕ := daysBeforeYear x.year + x.yearDay

theorem yearDay_pos (x : Date) : 1 ≤ x.yearDay := x.day_pos.trans (Nat.le_add_left _ _)

theorem yearDay_le (x : Date) : x.yearDay ≤ daysInYear x.year := by
  have hmonth := daysBeforeMonth_mono x.year (Nat.lt_succ_of_le x.month_le)
  have hday := x.day_le
  rw [daysBeforeMonth_end] at hmonth
  rw [yearDay]
  omega

theorem yearDay_lt_of_month {x y : Date} (hyear : x.year = y.year) (h : x.month < y.month) :
    x.yearDay < y.yearDay := by
  have hmonth := daysBeforeMonth_mono x.year h
  have hday := x.day_le
  have hpos := y.day_pos
  rw [yearDay, yearDay, ← hyear]
  omega

theorem ordinal_lt_of_year {x y : Date} (h : x.year < y.year) : x.ordinal < y.ordinal := by
  have hyear := daysBeforeYear_mono x.year_pos h
  have hday := x.yearDay_le
  have hpos := y.yearDay_pos
  rw [ordinal, ordinal]
  omega

theorem eq_of_fields {x y : Date} (hyear : x.year = y.year) (hmonth : x.month = y.month)
    (hday : x.day = y.day) : x = y := by
  cases x
  cases y
  cases hyear
  cases hmonth
  cases hday
  rfl

theorem ordinal_injective : Function.Injective ordinal := by
  intro x y h
  have hyear : x.year = y.year := by
    rcases lt_trichotomy x.year y.year with hlt | heq | hlt
    · exact absurd h (ordinal_lt_of_year hlt).ne
    · exact heq
    · exact absurd h (ordinal_lt_of_year hlt).ne'
  have hyearDay : x.yearDay = y.yearDay := by
    rw [ordinal, ordinal, hyear] at h
    exact Nat.add_left_cancel h
  have hmonth : x.month = y.month := by
    rcases lt_trichotomy x.month y.month with hlt | heq | hlt
    · exact absurd hyearDay (yearDay_lt_of_month hyear hlt).ne
    · exact heq
    · exact absurd hyearDay (yearDay_lt_of_month hyear.symm hlt).ne'
  have hday : x.day = y.day := by
    rw [yearDay, yearDay, hyear, hmonth] at hyearDay
    exact Nat.add_left_cancel hyearDay
  exact eq_of_fields hyear hmonth hday

/-- Earlier dates are smaller. -/
instance : LinearOrder Date := LinearOrder.lift' ordinal ordinal_injective

theorem lt_iff {x y : Date} : x < y ↔ x.ordinal < y.ordinal := Iff.rfl

theorem le_iff {x y : Date} : x ≤ y ↔ x.ordinal ≤ y.ordinal := Iff.rfl

theorem lt_iff_yearDay {x y : Date} (h : x.year = y.year) : x < y ↔ x.yearDay < y.yearDay := by
  rw [lt_iff, ordinal, ordinal, h]
  exact Nat.add_lt_add_iff_left

/-- `date.weekday`. -/
def weekday (x : Date) : Weekday := Weekday.ofIndex (x.ordinal + 6)

/-- The weeks that begin on `first`, counted. -/
def week (first : Weekday) (x : Date) : ℕ := (x.ordinal + 6 - first.index) / 7

/-- The months of all years, counted. -/
def monthIndex (x : Date) : ℕ := 12 * x.year + x.month

theorem monthIndex_eq_iff {x y : Date} :
    x.monthIndex = y.monthIndex ↔ x.year = y.year ∧ x.month = y.month := by
  have hx := x.month_pos
  have hx' := x.month_le
  have hy := y.month_pos
  have hy' := y.month_le
  rw [monthIndex, monthIndex]
  omega

/-- A week has one day of each weekday. -/
theorem eq_of_week {first : Weekday} {x y : Date} (hweek : x.week first = y.week first)
    (hday : x.weekday = y.weekday) : x = y := by
  have hx := congrArg Weekday.index hday
  rw [weekday, weekday, Weekday.index_ofIndex, Weekday.index_ofIndex] at hx
  have hfirst := first.index_lt
  have hxpos := x.yearDay_pos
  have hypos := y.yearDay_pos
  apply ordinal_injective
  simp only [week, ordinal] at hx hweek ⊢
  omega

theorem month_eq_one_iff {x : Date} : x.month = 1 ↔ x.yearDay ≤ 31 := by
  constructor
  · intro h
    have hday := x.day_le
    rw [h] at hday
    rw [yearDay, h]
    simpa [daysBeforeMonth, daysInMonth] using hday
  · intro h
    by_contra hne
    have hlater : 1 < x.month := lt_of_le_of_ne x.month_pos (Ne.symm hne)
    have hbefore : 31 ≤ daysBeforeMonth x.year x.month := daysBeforeMonth_mono x.year hlater
    have hpos := x.day_pos
    rw [yearDay] at h
    omega

theorem month_eq_twelve_iff {x : Date} : x.month = 12 ↔ daysInYear x.year < x.yearDay + 31 := by
  have hend : daysBeforeMonth x.year 12 + 31 = daysInYear x.year := daysBeforeMonth_end x.year
  constructor
  · intro h
    have hpos := x.day_pos
    rw [yearDay, h]
    omega
  · intro h
    by_contra hne
    have hearlier : x.month < 12 := lt_of_le_of_ne x.month_le hne
    have hbefore := daysBeforeMonth_mono x.year hearlier
    have hday := x.day_le
    rw [yearDay] at h
    omega

theorem month_eq_one_of_le {x z : Date} (hyear : z.year = x.year) (h : z ≤ x) (hx : x.month = 1) :
    z.month = 1 := by
  rw [month_eq_one_iff] at *
  rw [le_iff, ordinal, ordinal, hyear] at h
  omega

theorem month_eq_twelve_of_le {x z : Date} (hyear : z.year = x.year) (h : x ≤ z)
    (hx : x.month = 12) : z.month = 12 := by
  rw [month_eq_twelve_iff] at *
  rw [le_iff, ordinal, ordinal, hyear] at h
  rw [hyear]
  omega

/-- Seven days on end in a month have every weekday. -/
theorem exists_weekday {year month first : ℕ} (hyear : 1 ≤ year) (hmonth : 1 ≤ month)
    (hmonth' : month ≤ 12) (hfirst : 1 ≤ first) (hlast : first + 6 ≤ daysInMonth year month)
    (w : Weekday) : ∃ x : Date, x.year = year ∧ x.month = month ∧
      (first ≤ x.day ∧ x.day ≤ first + 6) ∧ x.weekday = w := by
  have hw := w.index_lt
  generalize hbase : daysBeforeYear year + daysBeforeMonth year month + 6 = base
  have hday : first + (w.index + 7 - (base + first) % 7) % 7 ≤ first + 6 := by omega
  refine ⟨⟨year, month, first + (w.index + 7 - (base + first) % 7) % 7, hyear, hmonth, hmonth',
    hfirst.trans (Nat.le_add_right _ _), hday.trans hlast⟩, rfl, rfl,
    ⟨Nat.le_add_right _ _, hday⟩, ?_⟩
  apply Weekday.index_inj
  rw [weekday, Weekday.index_ofIndex, ordinal, yearDay]
  dsimp only
  omega

/-- The first four of some weekdays in a year fall in January. -/
theorem month_of_first {s : Set Date} {x : Date} {k : ℤ} (h : IsNth s k x) (hpos : 0 < k)
    (hfour : k ≤ 4) (hs : ∀ z : Date, z.year = x.year → z.weekday = x.weekday → z ∈ s) :
    x.month = 1 := by
  by_contra hlater
  have hweek : ∀ i : Fin 4, ∃ z : Date, z.year = x.year ∧ z.month = 1 ∧
      (7 * i.val + 1 ≤ z.day ∧ z.day ≤ 7 * i.val + 1 + 6) ∧ z.weekday = x.weekday := by
    intro i
    have hroom : 7 * i.val + 1 + 6 ≤ daysInMonth x.year 1 := by
      have hi := i.isLt
      change _ ≤ 31
      omega
    exact exists_weekday x.year_pos le_rfl (by decide) (Nat.le_add_left _ _) hroom x.weekday
  -- one date with the weekday in each of the first four weeks, all before `x`
  choose z hyear hmonth hday hweekday using hweek
  have hinj : Function.Injective z := by
    intro i j hij
    have hi := hday i
    have hj := hday j
    rw [hij] at hi
    omega
  have hx : x ∉ Finset.univ.image z := by
    intro hmem
    obtain ⟨i, -, hi⟩ := Finset.mem_image.mp hmem
    exact hlater (hi ▸ hmonth i)
  have hcard : (insert x (Finset.univ.image z)).card ≤ k.natAbs := by
    apply h.card_le
    intro b hb
    rcases Finset.mem_insert.mp hb with rfl | hb
    · exact ⟨h.1, mem_counted_self k b⟩
    · obtain ⟨i, -, rfl⟩ := Finset.mem_image.mp hb
      refine ⟨hs _ (hyear i) (hweekday i), ?_⟩
      rw [counted, if_pos hpos]
      have hjanuary := month_eq_one_iff.mp (hmonth i)
      have hnot := mt month_eq_one_iff.mpr hlater
      exact ((lt_iff_yearDay (hyear i)).mpr (by omega)).le
  rw [Finset.card_insert_of_notMem hx, Finset.card_image_of_injective _ hinj,
    Finset.card_fin] at hcard
  omega

/-- The last of some weekdays in a year falls in December. -/
theorem month_of_last {s : Set Date} {x : Date} (h : IsNth s (-1) x)
    (hs : ∀ z : Date, z.year = x.year → z.weekday = x.weekday → z ∈ s) : x.month = 12 := by
  by_contra hearlier
  have hroom : 25 + 6 ≤ daysInMonth x.year 12 := le_rfl
  obtain ⟨z, hyear, hmonth, -, hweekday⟩ :=
    exists_weekday x.year_pos (by decide) le_rfl (by decide) hroom x.weekday
  have hdecember := month_eq_twelve_iff.mp hmonth
  have hnot := mt month_eq_twelve_iff.mpr hearlier
  have hlt : x < z := by
    apply (lt_iff_yearDay hyear.symm).mpr
    rw [hyear] at hdecember
    omega
  have hcard : ({x, z} : Finset Date).card ≤ Int.natAbs (-1) := by
    apply h.card_le
    intro b hb
    rcases Finset.mem_insert.mp hb with rfl | hb
    · exact ⟨h.1, mem_counted_self _ b⟩
    · obtain rfl := Finset.mem_singleton.mp hb
      exact ⟨hs _ hyear hweekday, hlt.le⟩
  rw [Finset.card_pair hlt.ne] at hcard
  exact absurd hcard (by decide)

end Date

end GwsMigrator.Calendar
