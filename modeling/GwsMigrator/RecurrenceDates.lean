import GwsMigrator.RuleReading

/-! The dates of a rule by RFC 5545 and those of a recurrence of Graph, and when the one becomes
the other. -/
namespace GwsMigrator
open Calendar Ranks

/-! ### The dates of a rule -/

/-- A day of the month, counted from its start or, where it is negative, from its end. -/
def OnMonthDay (n : ℤ) (x : Date) : Prop :=
  (x.day : ℤ) = if 0 < n then n else daysInMonth x.year x.month + 1 + n

/-- A date in the `n`-th week of a year, from its start or its end. The year of a week is the one
that has its fourth day, and so four of its days or more. -/
def InWeek (first : Weekday) (n : ℤ) (x : Date) : Prop :=
  ∃ fourth : Date, fourth.week first = x.week first ∧
    (fourth.ordinal + 6 - first.index) % 7 = 3 ∧
    if 0 < n then ((fourth.yearDay - 1) / 7 + 1 : ℤ) = n
    else ((daysInYear fourth.year - fourth.yearDay) / 7 + 1 : ℤ) = -n

/-- When a rule ends, in seconds from the day before year 1 on. -/
def Until.instant (u : Until) : ℤ :=
  86400 * u.date.ordinal + (u.time.map (fun digits => (3600 * digitsValue (digits.take 2) +
    60 * digitsValue ((digits.drop 2).take 2) + digitsValue (digits.drop 4) : ℤ))).getD 0

namespace RRule

variable (r : RRule) (start : Date)

/-- The number of the period of the rule that a date lies in. -/
def period (x : Date) : ℕ :=
  match r.freq with
  | .daily => x.ordinal
  | .weekly => x.week r.weekStart
  | .monthly => x.monthIndex
  | .yearly => x.year

/-- The dates among which the ordinals of BYDAY count. -/
def scope (x : Date) : Set Date :=
  {z | if r.freq = .monthly ∨ r.bymonth ≠ [] then z.monthIndex = x.monthIndex
    else z.year = x.year}

def OnDay (e : ByDay) (x : Date) : Prop :=
  x.weekday = e.day ∧ ∀ n ∈ e.ordinal, IsNth (r.scope x ∩ {z | z.weekday = e.day}) n.value x

/-- No part of the rule says which days. -/
def NoDays : Prop := r.byday = [] ∧ r.bymonthday = none ∧ r.byweekno = []

/-- A date has what the parts of the rule ask for. What no part says is as at the start. -/
structure Fits (x : Date) : Prop where
  month : if r.bymonth ≠ [] then ∃ n ∈ r.bymonth, n.value = x.month
    else r.freq = .yearly → r.NoDays → x.month = start.month
  week : r.byweekno ≠ [] → ∃ n ∈ r.byweekno, InWeek r.weekStart n.value x
  monthDay : match r.bymonthday with
    | some n => OnMonthDay n.value x
    | none => r.freq = .monthly ∨ r.freq = .yearly → r.NoDays → x.day = start.day
  weekday : if r.byday ≠ [] then ∃ e ∈ r.byday, r.OnDay e x
    else r.freq = .weekly ∨ r.byweekno ≠ [] ∧ r.bymonthday = none → x.weekday = start.weekday

/-- What BYSETPOS leaves of a period. -/
def InPosition (x : Date) : Prop :=
  r.bysetpos ≠ [] →
    ∃ n ∈ r.bysetpos, IsNth {z | r.period z = r.period x ∧ r.Fits start z} n.value x

/-- The dates of a rule without its end. -/
def series : Set Date :=
  {x | start ≤ x ∧ r.step ∣ (r.period x : ℤ) - r.period start ∧ r.Fits start x ∧
    r.InPosition start x}

/-- The dates of a rule. `startOf` is the moment at which the event starts on a day, in seconds
of the clock that UNTIL is read on. -/
def dates (startOf : ℕ → ℤ) : Set Date :=
  match r.bound with
  | .forever => r.series start
  | .count n => {x ∈ r.series start | (r.series start ∩ Set.Iic x).encard ≤ n.value.toNat}
  | .ends u => {x ∈ r.series start |
      if u.time = none then x ≤ u.date else startOf x.ordinal ≤ u.instant}

end RRule

/-! ### The dates of a recurrence of Graph -/

def WeekIndex.position : WeekIndex → ℤ
  | .first => 1
  | .second => 2
  | .third => 3
  | .fourth => 4
  | .last => -1

/-- The dates of a pattern for a recurrence that starts on a date. -/
def GraphPattern.Matches (start : Date) (x : Date) : GraphPattern → Prop
  | .daily interval => interval ∣ (x.ordinal : ℤ) - start.ordinal
  | .weekly interval days first =>
    interval ∣ (x.week first : ℤ) - start.week first ∧ x.weekday ∈ days
  | .absoluteMonthly interval day =>
    interval ∣ (x.monthIndex : ℤ) - start.monthIndex ∧ (x.day : ℤ) = day
  | .relativeMonthly interval days index =>
    interval ∣ (x.monthIndex : ℤ) - start.monthIndex ∧
      IsNth {z | z.monthIndex = x.monthIndex ∧ z.weekday ∈ days} index.position x
  | .absoluteYearly interval day month =>
    interval ∣ (x.year : ℤ) - start.year ∧ (x.month : ℤ) = month ∧ (x.day : ℤ) = day
  | .relativeYearly interval days index month =>
    interval ∣ (x.year : ℤ) - start.year ∧ (x.month : ℤ) = month ∧
      IsNth {z | z.monthIndex = x.monthIndex ∧ z.weekday ∈ days} index.position x

namespace GraphRecurrence

variable (g : GraphRecurrence)

def series : Set Date :=
  {x | ∃ start, dateOfIso g.startDate = some start ∧ start ≤ x ∧ g.pattern.Matches start x}

def dates : Set Date :=
  match g.rangeEnd with
  | .noEnd => g.series
  | .numbered n => {x ∈ g.series | (g.series ∩ Set.Iic x).encard ≤ n.toNat}
  | .endDate text => {x ∈ g.series | ∃ last, dateOfIso text = some last ∧ x ≤ last}

end GraphRecurrence

end GwsMigrator
