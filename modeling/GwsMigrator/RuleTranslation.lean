import GwsMigrator.RecurrenceDates

/-! Which rules keep their dates when `rrule_to_graph_recurrence` translates them. -/
namespace GwsMigrator
open Calendar Ranks

namespace RRule

variable (r : RRule) (start : Date)

/-- At most one month is listed. -/
def OneMonth : Prop := ∀ m ∈ r.bymonth, ∀ n ∈ r.bymonth, m.value = n.value

/-- One position that Graph has an index for: that of one weekday, or that of BYSETPOS. -/
def SinglePosition (k : ℤ) : Prop :=
  (k = 1 ∨ k = 2 ∨ k = 3 ∨ k = 4 ∨ k = -1) ∧
    ((∃ w, ∀ e ∈ r.byday, e.day = w ∧ e.ordinal.map Numeral.value = some k) ∨
      (∀ e ∈ r.byday, e.ordinal = none) ∧ r.bysetpos ≠ [] ∧ ∀ n ∈ r.bysetpos, n.value = k)

/-- A day counted from the end of the month. -/
def FromMonthEnd : Prop := ∃ n ∈ r.bymonthday, n.value < 0

/-- There is a pattern for the rule. -/
def Mapped : Prop := r.freq = .monthly ∨ r.freq = .yearly → ¬ r.FromMonthEnd

/-- A rule of which the pattern has every part, or for which there is none. -/
def Translatable : Prop :=
  match r.freq with
  | .daily => r.byday = [] ∧ r.bymonth = [] ∧ r.bymonthday = none
  | .weekly => r.bymonth = [] ∧ (r.bysetpos = [] ∨ ∃ w, ∀ e ∈ r.byday, e.day = w)
  | .monthly => r.FromMonthEnd ∨ r.bymonth = [] ∧
      (r.byday = [] ∨ r.bymonthday = none ∧ ∃ k, r.SinglePosition k)
  | .yearly => r.FromMonthEnd ∨ r.byweekno = [] ∧ r.OneMonth ∧
      (r.byday = [] ∧ (r.bymonthday = none ∨ r.bymonth ≠ []) ∨
        r.bymonthday = none ∧ ∃ k, r.SinglePosition k)

variable {r start}

/-- Where a period has one date at most, BYSETPOS takes none away. -/
theorem inPosition_of_unique
    (hunique : ∀ x z, r.Fits start x → r.Fits start z → r.period z = r.period x → z = x)
    (hfits : r.Fits start start) (hstart : r.InPosition start start) {x : Date}
    (hx : r.Fits start x) : r.InPosition start x := by
  intro hne
  obtain ⟨n, hn, hnth⟩ := hstart hne
  have hsingle : ∀ y, r.Fits start y →
      (IsNth {z | r.period z = r.period y ∧ r.Fits start z} n.value y ↔
        n.value = 1 ∨ n.value = -1) := by
    intro y hy
    have hself : y ∈ {z | r.period z = r.period y ∧ r.Fits start z} := ⟨rfl, hy⟩
    exact isNth_of_unique hself (fun z hz => hunique y z hy hz.2 hz.1) n.value
  exact ⟨n, hn, (hsingle x hx).mpr ((hsingle start hfits).mp hnth)⟩

theorem byweekno_of_freq (h : r.freq ≠ .yearly) : r.byweekno = [] := by
  by_contra hne
  exact h (r.byweekno_freq hne)

theorem mem_days {w : Weekday} : w ∈ r.days ↔ ∃ e ∈ r.byday, e.day = w := List.mem_map

/-- Entries without ordinals say which weekdays. -/
theorem onDay_iff (hplain : ∀ e ∈ r.byday, e.ordinal = none) (x : Date) :
    (∃ e ∈ r.byday, r.OnDay e x) ↔ x.weekday ∈ r.days := by
  rw [mem_days]
  constructor
  · rintro ⟨e, he, hday, -⟩
    exact ⟨e, he, hday.symm⟩
  · rintro ⟨e, he, hday⟩
    refine ⟨e, he, hday.symm, ?_⟩
    rw [hplain e he]
    simp

/-! ### By day and by week -/

/-- Without BYDAY, BYMONTH and BYMONTHDAY every day fits. -/
theorem daily_series (hfreq : r.freq = .daily) (hbyday : r.byday = []) (hbymonth : r.bymonth = [])
    (hbymonthday : r.bymonthday = none) (x : Date) :
    r.Fits start x ∧ r.InPosition start x := by
  have hbyweekno : r.byweekno = [] := byweekno_of_freq (by rw [hfreq]; decide)
  refine ⟨⟨?_, ?_, ?_, ?_⟩, ?_⟩
  · simp [hbymonth, hfreq]
  · simp [hbyweekno]
  · simp [hbymonthday, hfreq]
  · simp [hbyday, hfreq, hbyweekno]
  · -- BYSETPOS may not stand alone
    intro hne
    have hparts := r.bysetpos_by hne
    simp [hbyday, hbymonth, hbymonthday, hbyweekno] at hparts

/-- The weekdays of a weekly rule. -/
def weekdays (r : RRule) (start : Date) : List Weekday :=
  if r.byday = [] then [start.weekday] else r.days

theorem weekly_fits (hfreq : r.freq = .weekly) (hbymonth : r.bymonth = []) (x : Date) :
    r.Fits start x ↔ x.weekday ∈ r.weekdays start := by
  have hbyweekno : r.byweekno = [] := byweekno_of_freq (by rw [hfreq]; decide)
  have hbymonthday : r.bymonthday = none := by
    by_contra hne
    exact r.bymonthday_freq (Option.isSome_iff_ne_none.mpr hne) hfreq
  have hplain : ∀ e ∈ r.byday, e.ordinal = none := by
    intro e he
    by_contra hne
    have hallowed := r.ordinal_freq ⟨e, he, Option.isSome_iff_ne_none.mpr hne⟩
    simp [hfreq] at hallowed
  have hweekday : x.weekday ∈ r.weekdays start ↔ (if r.byday ≠ [] then ∃ e ∈ r.byday, r.OnDay e x
      else x.weekday = start.weekday) := by
    rw [weekdays, onDay_iff hplain]
    by_cases h : r.byday = [] <;> simp [h]
  rw [hweekday]
  constructor
  · intro h
    simpa [hfreq] using h.weekday
  · intro h
    refine ⟨?_, ?_, ?_, ?_⟩
    · simp [hbymonth, hfreq]
    · simp [hbyweekno]
    · simp [hbymonthday, hfreq]
    · simpa [hfreq] using h

theorem weekly_inPosition (hfreq : r.freq = .weekly) (hbymonth : r.bymonth = [])
    (hone : r.bysetpos = [] ∨ ∃ w, ∀ e ∈ r.byday, e.day = w) (hfits : r.Fits start start)
    (hstart : r.InPosition start start) {x : Date} (hx : r.Fits start x) :
    r.InPosition start x := by
  rcases hone with hnone | ⟨w, hw⟩
  · exact fun hne => absurd hnone hne
  apply inPosition_of_unique _ hfits hstart hx
  intro y z hy hz hweek
  rw [weekly_fits hfreq hbymonth, weekdays] at hy hz
  rw [period, period, hfreq] at hweek
  apply Date.eq_of_week hweek
  split at hy
  · rw [if_pos ‹_›] at hz
    rw [List.mem_singleton.mp hy, List.mem_singleton.mp hz]
  · rw [if_neg ‹_›] at hz
    obtain ⟨e, he, hey⟩ := mem_days.mp hy
    obtain ⟨f, hf, hfz⟩ := mem_days.mp hz
    rw [← hey, ← hfz, hw e he, hw f hf]

/-! ### Absolute patterns -/

theorem monthDay_iff (hfreq : r.freq = .monthly ∨ r.freq = .yearly) (hbyday : r.byday = [])
    (hbyweekno : r.byweekno = []) {d : ℤ} (hd : r.day start = some d) (x : Date) :
    (match r.bymonthday with
      | some n => OnMonthDay n.value x
      | none => r.freq = .monthly ∨ r.freq = .yearly → r.NoDays → x.day = start.day) ↔
      (x.day : ℤ) = d := by
  rw [day] at hd
  cases hbymonthday : r.bymonthday with
  | none =>
    rw [hbymonthday] at hd
    obtain rfl := Option.some.inj hd
    rw [Nat.cast_inj]
    exact ⟨fun h => h hfreq ⟨hbyday, hbymonthday, hbyweekno⟩, fun h _ _ => h⟩
  | some n =>
    rw [hbymonthday] at hd
    dsimp only at hd ⊢
    split at hd
    · next hpos =>
      obtain rfl := Option.some.inj hd
      rw [OnMonthDay, if_pos hpos]
    · cases hd

theorem monthly_absolute_fits (hfreq : r.freq = .monthly) (hbymonth : r.bymonth = [])
    (hbyday : r.byday = []) {d : ℤ} (hd : r.day start = some d) (x : Date) :
    r.Fits start x ↔ (x.day : ℤ) = d := by
  have hbyweekno : r.byweekno = [] := byweekno_of_freq (by rw [hfreq]; decide)
  have hday := monthDay_iff (Or.inl hfreq) hbyday hbyweekno hd x
  constructor
  · exact fun h => hday.mp h.monthDay
  · intro h
    refine ⟨?_, ?_, hday.mpr h, ?_⟩
    · simp [hbymonth, hfreq]
    · simp [hbyweekno]
    · simp [hbyday, hfreq, hbyweekno]

theorem monthly_absolute (hfreq : r.freq = .monthly) (hbymonth : r.bymonth = [])
    (hbyday : r.byday = []) {d : ℤ} (hd : r.day start = some d) (hfits : r.Fits start start)
    (hstart : r.InPosition start start) (x : Date) :
    r.Fits start x ∧ r.InPosition start x ↔ (x.day : ℤ) = d := by
  have hall := monthly_absolute_fits hfreq hbymonth hbyday hd
  refine ⟨fun h => (hall x).mp h.1, fun h => ⟨(hall x).mpr h, ?_⟩⟩
  apply inPosition_of_unique _ hfits hstart ((hall x).mpr h)
  intro y z hy hz hperiod
  rw [period, period, hfreq] at hperiod
  obtain ⟨hyear, hmonth⟩ := Date.monthIndex_eq_iff.mp hperiod
  have hday : (z.day : ℤ) = y.day := ((hall z).mp hz).trans ((hall y).mp hy).symm
  exact Date.eq_of_fields hyear hmonth (by exact_mod_cast hday)

/-- One month is listed. -/
theorem month_iff (hone : r.OneMonth) (hne : r.bymonth ≠ []) (x : Date) :
    (∃ n ∈ r.bymonth, n.value = x.month) ↔ (x.month : ℤ) = r.month start := by
  rw [month]
  cases hbymonth : r.bymonth with
  | nil => exact absurd hbymonth hne
  | cons m ms =>
    have hm : m ∈ r.bymonth := hbymonth ▸ List.mem_cons_self
    constructor
    · rintro ⟨n, hn, hx⟩
      have hsame := hone m hm n (hbymonth ▸ hn)
      exact (hsame.trans hx).symm
    · exact fun h => ⟨m, List.mem_cons_self, h.symm⟩

theorem yearly_absolute_fits (hfreq : r.freq = .yearly) (hbyweekno : r.byweekno = [])
    (hone : r.OneMonth) (hbyday : r.byday = []) (hmonth : r.bymonthday = none ∨ r.bymonth ≠ [])
    {d : ℤ} (hd : r.day start = some d) (x : Date) :
    r.Fits start x ↔ (x.month : ℤ) = r.month start ∧ (x.day : ℤ) = d := by
  have hday := monthDay_iff (Or.inr hfreq) hbyday hbyweekno hd x
  have hmonthFits : (if r.bymonth ≠ [] then ∃ n ∈ r.bymonth, n.value = x.month
      else r.freq = .yearly → r.NoDays → x.month = start.month) ↔
      (x.month : ℤ) = r.month start := by
    by_cases hbymonth : r.bymonth = []
    · have hbymonthday := hmonth.resolve_right (not_not.mpr hbymonth)
      rw [if_neg (not_not.mpr hbymonth), month, hbymonth, List.head?_nil, Option.map_none,
        Option.getD_none, Nat.cast_inj]
      exact ⟨fun h => h hfreq ⟨hbyday, hbymonthday, hbyweekno⟩, fun h _ _ => h⟩
    · rw [if_pos hbymonth, month_iff hone hbymonth]
  constructor
  · exact fun h => ⟨hmonthFits.mp h.month, hday.mp h.monthDay⟩
  · rintro ⟨hx, hx'⟩
    refine ⟨hmonthFits.mpr hx, ?_, hday.mpr hx', ?_⟩
    · simp [hbyweekno]
    · simp [hbyday, hfreq, hbyweekno]

theorem yearly_absolute (hfreq : r.freq = .yearly) (hbyweekno : r.byweekno = [])
    (hone : r.OneMonth) (hbyday : r.byday = []) (hmonth : r.bymonthday = none ∨ r.bymonth ≠ [])
    {d : ℤ} (hd : r.day start = some d) (hfits : r.Fits start start)
    (hstart : r.InPosition start start) (x : Date) :
    r.Fits start x ∧ r.InPosition start x ↔
      (x.month : ℤ) = r.month start ∧ (x.day : ℤ) = d := by
  have hall := yearly_absolute_fits hfreq hbyweekno hone hbyday hmonth hd
  refine ⟨fun h => (hall x).mp h.1, fun h => ⟨(hall x).mpr h, ?_⟩⟩
  apply inPosition_of_unique _ hfits hstart ((hall x).mpr h)
  intro y z hy hz hyear
  rw [period, period, hfreq] at hyear
  obtain ⟨hym, hyd⟩ := (hall y).mp hy
  obtain ⟨hzm, hzd⟩ := (hall z).mp hz
  have hmonths : (z.month : ℤ) = y.month := hzm.trans hym.symm
  have hdays : (z.day : ℤ) = y.day := hzd.trans hyd.symm
  exact Date.eq_of_fields hyear (by exact_mod_cast hmonths) (by exact_mod_cast hdays)

/-! ### Relative patterns -/

/-- The months that a rule names, if it names any. -/
def MonthFits (r : RRule) (start x : Date) : Prop := r.bymonth ≠ [] → (x.month : ℤ) = r.month start

/-- The dates among which the position of a relative rule counts. -/
def picked (r : RRule) (x : Date) : Set Date := r.scope x ∩ {z | z.weekday ∈ r.days}

section relative

variable (hfreq : r.freq = .monthly ∧ r.bymonth = [] ∨ r.freq = .yearly)
  (hbyweekno : r.byweekno = []) (hone : r.OneMonth) (hrelative : r.Relative)

include hbyweekno hone hrelative in
theorem relative_fits (x : Date) :
    r.Fits start x ↔ r.MonthFits start x ∧ ∃ e ∈ r.byday, r.OnDay e x := by
  obtain ⟨hbyday, hbymonthday⟩ := hrelative
  have hmonth : (if r.bymonth ≠ [] then ∃ n ∈ r.bymonth, n.value = x.month
      else r.freq = .yearly → r.NoDays → x.month = start.month) ↔ r.MonthFits start x := by
    by_cases hbymonth : r.bymonth = []
    · rw [if_neg (not_not.mpr hbymonth)]
      exact iff_of_true (fun _ hnone => absurd hnone.1 hbyday) (fun hne => absurd hbymonth hne)
    · rw [if_pos hbymonth, month_iff hone hbymonth, MonthFits]
      exact ⟨fun h _ => h, fun h => h hbymonth⟩
  constructor
  · intro h
    have hday := h.weekday
    rw [if_pos hbyday] at hday
    exact ⟨hmonth.mp h.month, hday⟩
  · rintro ⟨hx, hday⟩
    refine ⟨hmonth.mpr hx, fun hne => absurd hbyweekno hne, ?_, ?_⟩
    · rw [hbymonthday]
      exact fun _ hnone => absurd hnone.1 hbyday
    · rw [if_pos hbyday]
      exact hday

include hfreq in
/-- A date's scope is what its period has in the months of the rule. -/
theorem mem_scope_iff {x z : Date} (hx : r.MonthFits start x) :
    z ∈ r.scope x ↔ r.period z = r.period x ∧ r.MonthFits start z := by
  rw [scope, Set.mem_ofPred_eq, period, period]
  rcases hfreq with ⟨hmonthly, hbymonth⟩ | hyearly
  · rw [if_pos (Or.inl hmonthly), hmonthly]
    exact ⟨fun h => ⟨h, fun hne => absurd hbymonth hne⟩, fun h => h.1⟩
  · rw [hyearly]
    by_cases hbymonth : r.bymonth = []
    · rw [if_neg (by simp [hbymonth])]
      exact ⟨fun h => ⟨h, fun hne => absurd hbymonth hne⟩, fun h => h.1⟩
    · have hxm := hx hbymonth
      rw [if_pos (Or.inr hbymonth), Date.monthIndex_eq_iff]
      constructor
      · rintro ⟨hyear, hmonth⟩
        refine ⟨hyear, fun _ => ?_⟩
        rw [hmonth]
        exact hxm
      · rintro ⟨hyear, hz⟩
        have hzm := hz hbymonth
        rw [← hxm] at hzm
        exact ⟨hyear, by exact_mod_cast hzm⟩

include hfreq in
theorem scope_congr {x z : Date} (hx : r.MonthFits start x) (hz : r.MonthFits start z)
    (h : r.period z = r.period x) : r.scope z = r.scope x := by
  ext y
  rw [mem_scope_iff hfreq hz, mem_scope_iff hfreq hx, h]

include hrelative in
/-- Where every entry names one weekday with one ordinal, a date meets an entry in this position. -/
theorem onDay_position_iff {k : ℤ} {w : Weekday}
    (hw : ∀ e ∈ r.byday, e.day = w ∧ e.ordinal.map Numeral.value = some k) (x : Date) :
    (∃ e ∈ r.byday, r.OnDay e x) ↔ IsNth (r.picked x) k x := by
  obtain ⟨e₀, he₀⟩ := List.exists_mem_of_ne_nil _ hrelative.1
  have hdays : {z : Date | z.weekday ∈ r.days} = {z | z.weekday = w} := by
    ext z
    rw [Set.mem_ofPred_eq, Set.mem_ofPred_eq, mem_days]
    constructor
    · rintro ⟨e, he, hz⟩
      exact hz.symm.trans (hw e he).1
    · exact fun hz => ⟨e₀, he₀, (hw e₀ he₀).1.trans hz.symm⟩
  rw [picked, hdays]
  constructor
  · rintro ⟨e, he, -, hnth⟩
    obtain ⟨n, hn, hk⟩ := Option.map_eq_some_iff.mp (hw e he).2
    have hresult := hnth n hn
    rwa [hk, (hw e he).1] at hresult
  · intro hnth
    refine ⟨e₀, he₀, hnth.1.2.trans (hw e₀ he₀).1.symm, ?_⟩
    intro n hn
    obtain ⟨m, hm, hk⟩ := Option.map_eq_some_iff.mp (hw e₀ he₀).2
    obtain rfl := Option.some.inj (hm.symm.trans hn)
    rw [hk, (hw e₀ he₀).1]
    exact hnth

include hfreq hbyweekno hone hrelative in
/-- Where BYSETPOS is the position, it counts among the weekdays of the period. -/
theorem bysetpos_iff {k : ℤ} (hplain : ∀ e ∈ r.byday, e.ordinal = none) (hne : r.bysetpos ≠ [])
    (hpos : ∀ n ∈ r.bysetpos, n.value = k) (x : Date) :
    r.Fits start x ∧ r.InPosition start x ↔ r.MonthFits start x ∧ IsNth (r.picked x) k x := by
  have hall : ∀ y, r.Fits start y ↔ r.MonthFits start y ∧ y.weekday ∈ r.days := by
    intro y
    rw [relative_fits hbyweekno hone hrelative, onDay_iff hplain]
  have hcandidates : r.MonthFits start x →
      {z | r.period z = r.period x ∧ r.Fits start z} = r.picked x := by
    intro hx
    ext z
    rw [picked, Set.mem_inter_iff, mem_scope_iff hfreq hx, Set.mem_ofPred_eq, Set.mem_ofPred_eq,
      hall, and_assoc]
  constructor
  · rintro ⟨hx, hposition⟩
    obtain ⟨n, hn, hnth⟩ := hposition hne
    have hxm := ((hall x).mp hx).1
    rw [hcandidates hxm, hpos n hn] at hnth
    exact ⟨hxm, hnth⟩
  · rintro ⟨hxm, hnth⟩
    refine ⟨(hall x).mpr ⟨hxm, hnth.1.2⟩, fun _ => ?_⟩
    obtain ⟨n, hn⟩ := List.exists_mem_of_ne_nil _ hne
    refine ⟨n, hn, ?_⟩
    rw [hcandidates hxm, hpos n hn]
    exact hnth

include hfreq hbyweekno hone hrelative in
/-- The dates of a relative rule are those in its position. -/
theorem relative_iff {k : ℤ} (hsingle : r.SinglePosition k) (hfits : r.Fits start start)
    (hstart : r.InPosition start start) (x : Date) :
    r.Fits start x ∧ r.InPosition start x ↔ r.MonthFits start x ∧ IsNth (r.picked x) k x := by
  rcases hsingle.2 with ⟨w, hw⟩ | ⟨hplain, hne, hpos⟩
  · have hall : ∀ y, r.Fits start y ↔ r.MonthFits start y ∧ IsNth (r.picked y) k y := by
      intro y
      rw [relative_fits hbyweekno hone hrelative, onDay_position_iff hrelative hw]
    refine ⟨fun h => (hall x).mp h.1, fun h => ⟨(hall x).mpr h, ?_⟩⟩
    -- a period has one date in the position, so BYSETPOS leaves it
    apply inPosition_of_unique _ hfits hstart ((hall x).mpr h)
    intro y z hy hz hperiod
    obtain ⟨hym, hyn⟩ := (hall y).mp hy
    obtain ⟨hzm, hzn⟩ := (hall z).mp hz
    rw [picked, scope_congr hfreq hym hzm hperiod, ← picked] at hzn
    exact hzn.unique hyn
  · exact bysetpos_iff hfreq hbyweekno hone hrelative hplain hne hpos x

end relative

theorem index_position (hrelative : r.Relative) {k : ℤ} (hsingle : r.SinglePosition k) :
    r.index.position = k := by
  obtain ⟨hk, hparts⟩ := hsingle
  have hposition : r.position = some k := by
    rw [position, positionNumeral]
    cases hbyday : r.byday with
    | nil => exact absurd hbyday hrelative.1
    | cons e es =>
      have he : e ∈ r.byday := hbyday ▸ List.mem_cons_self
      rw [List.head?_cons, Option.bind_some]
      rcases hparts with ⟨w, hw⟩ | ⟨hplain, hne, hpos⟩
      · obtain ⟨n, hn, hvalue⟩ := Option.map_eq_some_iff.mp (hw e he).2
        rw [hn]
        exact congrArg some hvalue
      · rw [hplain e he]
        cases hbysetpos : r.bysetpos with
        | nil => exact absurd hbysetpos hne
        | cons n ns => exact congrArg some (hpos n (hbysetpos ▸ List.mem_cons_self))
  rw [index, hposition]
  rcases hk with rfl | rfl | rfl | rfl | rfl <;> rfl

/-- Counted in a year, one of the first four or the last lies in its first or last month, and is
the same counted there. -/
theorem yearly_picked (hfreq : r.freq = .yearly) (hbymonth : r.bymonth = []) {k : ℤ}
    (hk : k = 1 ∨ k = 2 ∨ k = 3 ∨ k = 4 ∨ k = -1) (hstart : IsNth (r.picked start) k start)
    (x : Date) : IsNth (r.picked x) k x ↔ x.month = start.month ∧
      IsNth {z | z.monthIndex = x.monthIndex ∧ z.weekday ∈ r.days} k x := by
  have hscope : ∀ y z : Date, z ∈ r.scope y ↔ z.year = y.year := by
    intro y z
    rw [scope, Set.mem_ofPred_eq, if_neg (by simp [hfreq, hbymonth])]
  have hsame : ∀ {y : Date}, IsNth (r.picked y) k y → ∀ z : Date, z.year = y.year →
      z.weekday = y.weekday → z ∈ r.picked y := by
    intro y hy z hyear hweekday
    refine ⟨(hscope y z).mpr hyear, ?_⟩
    rw [Set.mem_ofPred_eq, hweekday]
    exact hy.1.2
  -- the month that the position is in, and what counts towards it
  obtain ⟨m, hmonth, hcounted⟩ : ∃ m, (∀ {y : Date}, IsNth (r.picked y) k y → y.month = m) ∧
      ∀ {y z : Date}, y.month = m → z.year = y.year → z ∈ counted k y → z.month = m := by
    by_cases hpos : 0 < k
    · refine ⟨1, fun hy => Date.month_of_first hy hpos (by omega) (hsame hy), ?_⟩
      intro y z hy hyear hz
      rw [counted, if_pos hpos] at hz
      exact Date.month_eq_one_of_le hyear hz hy
    · obtain rfl : k = -1 := by omega
      refine ⟨12, fun hy => Date.month_of_last hy (hsame hy), ?_⟩
      intro y z hy hyear hz
      exact Date.month_eq_twelve_of_le hyear hz hy
  have hinter : x.month = m → r.picked x ∩ {z | z.month = m} =
      {z | z.monthIndex = x.monthIndex ∧ z.weekday ∈ r.days} := by
    intro hx
    ext z
    rw [picked, Set.mem_inter_iff, Set.mem_inter_iff, hscope, Set.mem_ofPred_eq,
      Set.mem_ofPred_eq, Set.mem_ofPred_eq, Date.monthIndex_eq_iff, hx]
    tauto
  have hrestrict := isNth_inter (s := r.picked x) (t := {z | z.month = m}) (k := k) (a := x)
    (fun _ hx z hz => hcounted hx ((hscope x z).mp hz.1.1) hz.2)
  rw [hmonth hstart]
  constructor
  · intro hx
    have hxm := hmonth hx
    rw [← hinter hxm]
    exact ⟨hxm, hrestrict.mpr ⟨hx, hxm⟩⟩
  · rintro ⟨hxm, hx⟩
    rw [← hinter hxm] at hx
    exact (hrestrict.mp hx).1

theorem monthly_relative (hfreq : r.freq = .monthly) (hbymonth : r.bymonth = [])
    (hrelative : r.Relative) {k : ℤ} (hsingle : r.SinglePosition k) (hfits : r.Fits start start)
    (hstart : r.InPosition start start) (x : Date) :
    r.Fits start x ∧ r.InPosition start x ↔
      IsNth {z | z.monthIndex = x.monthIndex ∧ z.weekday ∈ r.days} r.index.position x := by
  have hbyweekno : r.byweekno = [] := byweekno_of_freq (by rw [hfreq]; decide)
  have hone : r.OneMonth := by simp [OneMonth, hbymonth]
  have hpicked : r.picked x = {z | z.monthIndex = x.monthIndex ∧ z.weekday ∈ r.days} := by
    ext z
    simp [picked, scope, hfreq]
  rw [relative_iff (Or.inl ⟨hfreq, hbymonth⟩) hbyweekno hone hrelative hsingle hfits hstart,
    hpicked, index_position hrelative hsingle]
  exact ⟨fun h => h.2, fun h => ⟨fun hne => absurd hbymonth hne, h⟩⟩

theorem yearly_relative (hfreq : r.freq = .yearly) (hbyweekno : r.byweekno = [])
    (hone : r.OneMonth) (hrelative : r.Relative) {k : ℤ} (hsingle : r.SinglePosition k)
    (hfits : r.Fits start start) (hstart : r.InPosition start start) (x : Date) :
    r.Fits start x ∧ r.InPosition start x ↔ (x.month : ℤ) = r.month start ∧
      IsNth {z | z.monthIndex = x.monthIndex ∧ z.weekday ∈ r.days} r.index.position x := by
  have hiff := relative_iff (Or.inr hfreq) hbyweekno hone hrelative hsingle hfits hstart
  rw [hiff, index_position hrelative hsingle]
  by_cases hbymonth : r.bymonth = []
  · -- the source takes the month of the start, which is where the position is in every year
    have hnth := ((hiff start).mp ⟨hfits, hstart⟩).2
    rw [yearly_picked hfreq hbymonth hsingle.1 hnth, month, hbymonth, List.head?_nil,
      Option.map_none, Option.getD_none, Nat.cast_inj]
    exact ⟨fun h => h.2, fun h => ⟨fun hne => absurd hbymonth hne, h⟩⟩
  · have hpicked : r.picked x = {z | z.monthIndex = x.monthIndex ∧ z.weekday ∈ r.days} := by
      ext z
      simp [picked, scope, hbymonth]
    rw [hpicked, MonthFits]
    exact ⟨fun h => ⟨h.1 hbymonth, h.2⟩, fun h => ⟨fun _ => h.1, h.2⟩⟩

/-! ### The patterns -/

/-- A day from the end of the month has no pattern. -/
theorem pattern_of_fromMonthEnd (hfreq : r.freq = .monthly ∨ r.freq = .yearly)
    (hend : r.FromMonthEnd) : r.pattern start = none := by
  obtain ⟨n, hn, hneg⟩ := hend
  have hsome : r.bymonthday = some n := hn
  have habsolute : ¬ r.Relative := by
    intro hrelative
    rw [hrelative.2] at hsome
    cases hsome
  have hday : r.day start = none := by
    rw [day, hsome]
    exact if_neg (by omega)
  rw [pattern]
  rcases hfreq with hfreq | hfreq
  · simp only [hfreq, if_neg habsolute, hday, Option.map_none]
  · simp only [hfreq, if_neg habsolute, hday, Option.map_none]

theorem mapped_of_pattern (h : r.pattern start ≠ none) : r.Mapped :=
  fun hfreq hend => h (pattern_of_fromMonthEnd hfreq hend)

/-- The pattern that is made of a translatable rule has the rule's dates. -/
theorem matches_iff (ht : r.Translatable) {p : GraphPattern} (hp : r.pattern start = some p)
    (hfits : r.Fits start start) (hstart : r.InPosition start start) (x : Date) :
    r.step ∣ (r.period x : ℤ) - r.period start ∧ r.Fits start x ∧ r.InPosition start x ↔
      p.Matches start x := by
  have hnotEnd := mapped_of_pattern (Option.ne_none_iff_exists'.mpr ⟨p, hp⟩)
  rw [Translatable] at ht
  rw [pattern] at hp
  rw [period, period]
  cases hfreq : r.freq with
  | daily =>
    rw [hfreq] at ht hp
    obtain ⟨hbyday, hbymonth, hbymonthday⟩ := ht
    obtain rfl := Option.some.inj hp
    have hall : r.Fits start x ∧ r.InPosition start x :=
      daily_series hfreq hbyday hbymonth hbymonthday x
    exact ⟨fun h => h.1, fun h => ⟨h, hall⟩⟩
  | weekly =>
    rw [hfreq] at ht hp
    obtain ⟨hbymonth, hone⟩ := ht
    obtain rfl := Option.some.inj hp
    have hx : r.Fits start x ↔ x.weekday ∈ r.weekdays start := weekly_fits hfreq hbymonth x
    constructor
    · exact fun h => ⟨h.1, hx.mp h.2.1⟩
    · intro h
      have hxfits := hx.mpr h.2
      exact ⟨h.1, hxfits, weekly_inPosition hfreq hbymonth hone hfits hstart hxfits⟩
  | monthly =>
    rw [hfreq] at ht hp
    dsimp only at ht hp
    obtain ⟨hbymonth, hposition⟩ := ht.resolve_left (hnotEnd (Or.inl hfreq))
    by_cases hrelative : r.Relative
    · rw [if_pos hrelative] at hp
      obtain rfl := Option.some.inj hp
      obtain ⟨k, hsingle⟩ := (hposition.resolve_left hrelative.1).2
      rw [monthly_relative hfreq hbymonth hrelative hsingle hfits hstart]
      rfl
    · rw [if_neg hrelative] at hp
      obtain ⟨d, hd, rfl⟩ := Option.map_eq_some_iff.mp hp
      have hbyday : r.byday = [] := by
        by_contra hne
        exact hrelative ⟨hne, (hposition.resolve_left hne).1⟩
      rw [monthly_absolute hfreq hbymonth hbyday hd hfits hstart]
      rfl
  | yearly =>
    rw [hfreq] at ht hp
    dsimp only at ht hp
    obtain ⟨hbyweekno, hone, hposition⟩ := ht.resolve_left (hnotEnd (Or.inr hfreq))
    by_cases hrelative : r.Relative
    · rw [if_pos hrelative] at hp
      obtain rfl := Option.some.inj hp
      have hplace := hposition.resolve_left (fun habsolute => hrelative.1 habsolute.1)
      obtain ⟨k, hsingle⟩ := hplace.2
      rw [yearly_relative hfreq hbyweekno hone hrelative hsingle hfits hstart]
      rfl
    · rw [if_neg hrelative] at hp
      obtain ⟨d, hd, rfl⟩ := Option.map_eq_some_iff.mp hp
      have hbyday : r.byday = [] := by
        by_contra hne
        have hplace := hposition.resolve_left (fun habsolute => hne habsolute.1)
        exact hrelative ⟨hne, hplace.1⟩
      have hmonth : r.bymonthday = none ∨ r.bymonth ≠ [] := by
        rcases hposition with habsolute | hplace
        · exact habsolute.2
        · exact Or.inl hplace.1
      rw [yearly_absolute hfreq hbyweekno hone hbyday hmonth hd hfits hstart]
      rfl

end RRule

/-! ### The translation -/

/-- A rule with a text of it, and the start of its event. -/
structure RecurringEvent where
  rule : RRule
  spelling : Spelling rule
  startDt : String
  start : Date
  start_text : dateOfIso (slice startDt 0 10) = some start
  start_day : start.day ≤ 28
  /-- When the event starts on a day, as `RRule.dates` has it. -/
  startOf : ℕ → ℤ
  startOf_mono : ∀ m n, m ≤ n → startOf m ≤ startOf n
  start_occurs : start ∈ rule.dates start startOf

namespace RecurringEvent

variable (e : RecurringEvent)

/-- There is no recurrence, or it has the dates of the rule. -/
def Preserved : Prop :=
  ∃ result, rruleToGraphRecurrence e.spelling.text e.startDt = .ok result ∧
    ∀ g ∈ result, g.dates = e.rule.dates e.start e.startOf

/-- `int` takes the count of the rule, and the moment at which the rule ends is on the day that it
names. -/
structure EndsAsRead : Prop where
  count : ∀ n, e.rule.bound = .count n → n.Short
  onDay : ∀ u, e.rule.bound = .ends u → u.time ≠ none →
    e.startOf u.date.ordinal ≤ u.instant ∧ u.instant < e.startOf (u.date.ordinal + 1)

/-- A translatable rule keeps its dates. -/
theorem preserved_of_translatable (ht : e.rule.Translatable) (hread : e.rule.Legible)
    (hends : e.rule.Mapped → e.EndsAsRead) : e.Preserved := by
  refine ⟨_, e.spelling.rruleToGraph_text e.start_text hread
    (fun hpattern => (hends (RRule.mapped_of_pattern hpattern)).count), ?_⟩
  intro g hg
  obtain ⟨p, hp, rfl⟩ := Option.map_eq_some_iff.mp hg
  have hstart : e.start ∈ e.rule.series e.start := by
    have hoccurs := e.start_occurs
    rw [RRule.dates] at hoccurs
    split at hoccurs
    · exact hoccurs
    · exact hoccurs.1
    · exact hoccurs.1
  obtain ⟨-, -, hfits, hposition⟩ := hstart
  have hseries : GraphRecurrence.series ⟨p, slice e.startDt 0 10, e.rule.rangeEnd⟩ =
      e.rule.series e.start := by
    ext x
    have hx := RRule.matches_iff ht hp hfits hposition x
    constructor
    · rintro ⟨s, hs, hle, hmatches⟩
      obtain rfl := Option.some.inj (e.start_text.symm.trans hs)
      exact ⟨hle, hx.mpr hmatches⟩
    · rintro ⟨hle, hrule⟩
      exact ⟨e.start, e.start_text, hle, hx.mp hrule⟩
  rw [GraphRecurrence.dates, RRule.dates, hseries, RRule.rangeEnd]
  cases hbound : e.rule.bound with
  | forever => rfl
  | count n => rfl
  | ends u =>
    ext x
    have hlast : (if u.time = none then x ≤ u.date else e.startOf x.ordinal ≤ u.instant) ↔
        x ≤ u.date := by
      by_cases htime : u.time = none
      · rw [if_pos htime]
      · have hmapped := RRule.mapped_of_pattern (Option.ne_none_iff_exists'.mpr ⟨p, hp⟩)
        obtain ⟨hday, hnext⟩ := (hends hmapped).onDay u hbound htime
        rw [if_neg htime]
        constructor
        · -- on a later day the event starts too late
          intro h
          by_contra hlater
          have hordinal : u.date.ordinal + 1 ≤ x.ordinal := Date.lt_iff.mp (not_le.mp hlater)
          have hmono := e.startOf_mono _ _ hordinal
          omega
        · exact fun h => (e.startOf_mono _ _ (Date.le_iff.mp h)).trans hday
    dsimp only
    rw [Set.mem_ofPred_eq, Set.mem_ofPred_eq, hlast, u.isoDay_date]
    constructor
    · rintro ⟨hx, last, hdate, hle⟩
      obtain rfl := Option.some.inj hdate
      exact ⟨hx, hle⟩
    · exact fun h => ⟨h.1, u.date, rfl, h.2⟩

end RecurringEvent

/-- A rule of which only the weekdays are given. -/
def weekdayRule (freq : Freq) (days : List Weekday) (bound : Bound)
    (hbound : ∀ n, bound = .count n → n.sign = .bare) : RRule where
  freq := freq
  interval := none
  byday := days.map (fun w => ⟨none, w⟩)
  bymonth := []
  bymonthday := none
  bysetpos := []
  byweekno := []
  wkst := none
  bound := bound
  interval_pos := by simp
  bymonth_range := by simp
  bymonthday_range := by simp
  bysetpos_range := by simp
  byweekno_range := by simp
  ordinal_range := by simp
  count_bare := hbound
  ordinal_freq := by simp
  bymonthday_freq := by simp
  byweekno_freq := by simp
  bysetpos_by := by simp

theorem weekdayRule_fits {freq : Freq} {days : List Weekday} (hne : days ≠ []) {bound : Bound}
    (hbound : ∀ n, bound = .count n → n.sign = .bare) (start x : Date) :
    (weekdayRule freq days bound hbound).Fits start x ↔ x.weekday ∈ days := by
  have hbyday : (weekdayRule freq days bound hbound).byday ≠ [] := by
    simpa [weekdayRule] using hne
  have hdays : (weekdayRule freq days bound hbound).days = days := by
    simp [RRule.days, weekdayRule, Function.comp_def]
  have hweekday := RRule.onDay_iff (r := weekdayRule freq days bound hbound)
    (by simp [weekdayRule]) x
  rw [hdays] at hweekday
  constructor
  · intro h
    have hday := h.weekday
    rw [if_pos hbyday] at hday
    exact hweekday.mp hday
  · intro h
    refine ⟨?_, fun hweek => absurd rfl hweek, fun _ hnone => absurd hnone.1 hbyday, ?_⟩
    · exact fun _ hnone => absurd hnone.1 hbyday
    · rw [if_pos hbyday]
      exact hweekday.mpr h

/-- The first of January 2024, a Monday. -/
def newYear : Date := ⟨2024, 1, 1, by decide, by decide, by decide, by decide, by decide⟩

theorem newYear_occurs {freq : Freq} {days : List Weekday} (hdays : .monday ∈ days)
    {bound : Bound} (hbound : ∀ n, bound = .count n → n.sign = .bare) :
    newYear ∈ (weekdayRule freq days bound hbound).series newYear := by
  refine ⟨le_rfl, by simp, ?_, fun hne => absurd rfl hne⟩
  exact (weekdayRule_fits (List.ne_nil_of_mem hdays) hbound _ _).mpr hdays

/-- The end of January 2024 in UTC. -/
def endOfJanuary : Until where
  day := "20240131".toList
  date := ⟨2024, 1, 31, by decide, by decide, by decide, by decide, by decide⟩
  day_length := rfl
  day_date := by decide
  time := some "235959".toList
  time_digits := by simp
  utc := true

/-- An event of nine o'clock in the first month of 2024, every Monday. -/
def mondayEvent : RecurringEvent where
  rule := weekdayRule .weekly [.monday] (.ends endOfJanuary) (by simp)
  spelling :=
    { order := [.freq, .byday, .ends]
      nodup := by decide
      mem_iff := fun p => by cases p <;> decide
      named := true }
  startDt := "2024-01-01T09:00:00"
  start := newYear
  start_text := by decide
  start_day := by decide
  startOf := fun day => 86400 * day + 9 * 3600
  startOf_mono := fun m n h => by
    have hcast : (m : ℤ) ≤ n := by exact_mod_cast h
    omega
  start_occurs := ⟨newYear_occurs List.mem_cons_self _, by decide⟩

/-- A rule without numbers has none that is too long. -/
theorem weekdayRule_legible (freq : Freq) (days : List Weekday) {bound : Bound}
    (hbound : ∀ n, bound = .count n → n.sign = .bare) :
    (weekdayRule freq days bound hbound).Legible := by
  have hposition : (weekdayRule freq days bound hbound).positionNumeral = none := by
    rw [RRule.positionNumeral]
    cases days <;> rfl
  refine ⟨by simp [weekdayRule], fun _ _ => ?_, by simp [weekdayRule], by simp [weekdayRule]⟩
  simp [hposition]

theorem mondayEvent_preserved : mondayEvent.Preserved := by
  refine mondayEvent.preserved_of_translatable ⟨rfl, Or.inl rfl⟩ (weekdayRule_legible _ _ _)
    (fun _ => ⟨fun n hn => ?_, ?_⟩)
  · cases hn
  · rintro u hu -
    obtain rfl := Bound.ends.inj hu
    decide

/-- An event of every working day. -/
def workdayEvent : RecurringEvent where
  rule := weekdayRule .daily [.monday, .tuesday, .wednesday, .thursday, .friday] .forever (by simp)
  spelling :=
    { order := [.freq, .byday]
      nodup := by decide
      mem_iff := fun p => by cases p <;> decide
      named := true }
  startDt := "2024-01-01T09:00:00"
  start := newYear
  start_text := by decide
  start_day := by decide
  startOf := fun _ => 0
  startOf_mono := fun _ _ _ => le_rfl
  start_occurs := newYear_occurs List.mem_cons_self _

/-- It becomes one of every day, and takes place on a Saturday. -/
theorem workdayEvent_daily : ¬ ∀ e : RecurringEvent, e.Preserved := by
  intro h
  obtain ⟨result, hresult, hdates⟩ := h workdayEvent
  rw [workdayEvent.spelling.rruleToGraph_text workdayEvent.start_text (weekdayRule_legible _ _ _)
    (fun _ n hn => by cases hn)] at hresult
  obtain rfl := Except.ok.inj hresult
  have hsame := hdates ⟨.daily 1, "2024-01-01", .noEnd⟩ (by decide)
  -- the sixth of January
  obtain ⟨saturday, hlate, hweekday⟩ : ∃ x : Date, newYear ≤ x ∧ x.weekday = .saturday :=
    ⟨⟨2024, 1, 6, by decide, by decide, by decide, by decide, by decide⟩, by decide, by decide⟩
  have hgraph : saturday ∈ GraphRecurrence.dates ⟨.daily 1, "2024-01-01", .noEnd⟩ :=
    ⟨newYear, by decide, hlate, one_dvd _⟩
  rw [hsame] at hgraph
  have hfits := (weekdayRule_fits (by simp) (by simp) _ _).mp hgraph.2.2.1
  rw [hweekday] at hfits
  exact absurd hfits (by decide)

end GwsMigrator
