import GwsMigrator.RuleText

/-! What `rrule_to_graph_recurrence` makes of a well-formed rule, from the rule itself. -/
namespace GwsMigrator
open Calendar Separators TextEdits

/-- The last day of a rule as `endDate` has it. -/
def Until.isoDay (u : Until) : String :=
  String.ofList (u.day.take 4 ++ '-' :: ((u.day.drop 4).take 2 ++ '-' :: u.day.drop 6))

namespace RRule

variable (r : RRule)

def step : ℤ := (r.interval.map Numeral.value).getD 1

def weekStart : Weekday := r.wkst.getD .monday

def days : List Weekday := r.byday.map ByDay.day

/-- The number that the index is taken from: the first ordinal, or the first position. -/
def positionNumeral : Option Numeral :=
  match r.byday.head?.bind ByDay.ordinal with
  | some n => some n
  | none => r.bysetpos.head?

def position : Option ℤ := r.positionNumeral.map Numeral.value

def index : WeekIndex := (r.position.map indexMap).getD .first

/-- A rule that becomes a relative pattern. -/
def Relative : Prop := r.byday ≠ [] ∧ r.bymonthday = none

instance : Decidable r.Relative := inferInstanceAs (Decidable (_ ∧ _))

/-- The month of a yearly pattern. -/
def month (start : Date) : ℤ := (r.bymonth.head?.map Numeral.value).getD start.month

/-- The day of an absolute pattern; the end of the month has none. -/
def day (start : Date) : Option ℤ :=
  match r.bymonthday with
  | none => some start.day
  | some n => if 0 < n.value then some n.value else none

/-- The numbers that are read for the pattern are not too long for `int`. -/
structure Legible : Prop where
  interval : ∀ n ∈ r.interval, n.Short
  index : r.freq = .monthly ∨ r.freq = .yearly → r.Relative → ∀ n ∈ r.positionNumeral, n.Short
  monthDay : r.freq = .monthly ∨ r.freq = .yearly → ∀ n ∈ r.bymonthday, n.Short
  month : r.freq = .yearly → ∀ n ∈ r.bymonth.head?, n.Short

def pattern (start : Date) : Option GraphPattern :=
  match r.freq with
  | .daily => some (.daily r.step)
  | .weekly =>
    some (.weekly r.step (if r.byday = [] then [start.weekday] else r.days) r.weekStart)
  | .monthly =>
    if r.Relative then some (.relativeMonthly r.step r.days r.index)
    else (r.day start).map (.absoluteMonthly r.step)
  | .yearly =>
    if r.Relative then some (.relativeYearly r.step r.days r.index (r.month start))
    else (r.day start).map (fun day => .absoluteYearly r.step day (r.month start))

def rangeEnd : RangeEnd :=
  match r.bound with
  | .forever => .noEnd
  | .count n => .numbered n.value
  | .ends u => .endDate u.isoDay

end RRule

/-! ### The text of the start -/

theorem toList_slice (text : String) (start stop : ℕ) :
    (slice text start stop).toList = (text.toList.drop start).take (stop - start) :=
  String.toList_ofList

theorem dateOfIso_eq_some {text : String} {x : Date} (h : dateOfIso text = some x) :
    ∃ y₁ y₂ y₃ y₄ m₁ m₂ d₁ d₂, text.toList = [y₁, y₂, y₃, y₄, '-', m₁, m₂, '-', d₁, d₂] ∧
      dateOfDigits [y₁, y₂, y₃, y₄] [m₁, m₂] [d₁, d₂] = some x := by
  rw [dateOfIso] at h
  split at h
  next y₁ y₂ y₃ y₄ m₁ m₂ d₁ d₂ htext => exact ⟨y₁, y₂, y₃, y₄, m₁, m₂, d₁, d₂, htext, h⟩
  next => cases h

/-- The fields of the date that a text begins with are read from it. -/
theorem start_fields {startDt : String} {start : Date}
    (h : dateOfIso (slice startDt 0 10) = some start) :
    intOf (slice startDt 5 7) = .ok (start.month : ℤ) ∧
      intOf (slice startDt 8 10) = .ok (start.day : ℤ) ∧
      weekdayFromDt startDt = .ok start.weekday := by
  obtain ⟨y₁, y₂, y₃, y₄, m₁, m₂, d₁, d₂, htake, hdate⟩ := dateOfIso_eq_some h
  obtain ⟨hdigits, -, hmonth, hday⟩ := dateOfDigits_eq_some hdate
  rw [toList_slice, List.drop_zero] at htake
  have hlist := List.take_append_drop 10 startDt.toList
  rw [htake] at hlist
  have hmonthText : slice startDt 5 7 = String.ofList [m₁, m₂] := by
    rw [slice, ← hlist]
    rfl
  have hdayText : slice startDt 8 10 = String.ofList [d₁, d₂] := by
    rw [slice, ← hlist]
    rfl
  refine ⟨?_, ?_, by rw [weekdayFromDt, h]⟩
  · rw [hmonthText, hmonth]
    refine intOf_digits (List.cons_ne_nil _ _) (fun c hc => ?_)
      (show 2 ≤ maxStrDigits by decide)
    exact hdigits c (List.mem_append_left _ (List.mem_append_right _ hc))
  · rw [hdayText, hday]
    refine intOf_digits (List.cons_ne_nil _ _) (fun c hc => ?_)
      (show 2 ≤ maxStrDigits by decide)
    exact hdigits c (List.mem_append_right _ hc)

namespace Until

variable (u : Until)

/-- The text of the last moment begins with its day. -/
theorem slice_text {start stop : ℕ} (h : stop ≤ 8) :
    slice (String.ofList u.text) start stop =
      String.ofList ((u.day.drop start).take (stop - start)) := by
  have htext : ∃ rest, u.text = u.day ++ rest := by
    rw [text]
    cases u.time with
    | none => exact ⟨[], (List.append_nil _).symm⟩
    | some digits => exact ⟨_, List.append_assoc _ _ _⟩
  obtain ⟨rest, hrest⟩ := htext
  have hlen := u.day_length
  rw [slice, String.toList_ofList, hrest, List.drop_append, List.take_append_of_le_length]
  rw [List.length_drop]
  omega

theorem slices_text : slice (String.ofList u.text) 0 4 ++ "-" ++ slice (String.ofList u.text) 4 6 ++
    "-" ++ slice (String.ofList u.text) 6 8 = u.isoDay := by
  have hlast : (u.day.drop 6).take 2 = u.day.drop 6 := by
    apply List.take_of_length_le
    rw [List.length_drop, u.day_length]
  have hmark : "-".toList = ['-'] := rfl
  rw [u.slice_text (by decide), u.slice_text (by decide), u.slice_text le_rfl, isoDay]
  apply String.toList_inj.mp
  simp only [String.toList_append, String.toList_ofList, List.drop_zero, Nat.sub_zero,
    Nat.reduceSub, hlast, hmark, List.append_assoc, List.cons_append, List.nil_append]

theorem isoDay_date : dateOfIso u.isoDay = some u.date := by
  have hdate := u.day_date
  obtain ⟨y₁, y₂, y₃, y₄, m₁, m₂, d₁, d₂, hday⟩ : ∃ y₁ y₂ y₃ y₄ m₁ m₂ d₁ d₂,
      u.day = [y₁, y₂, y₃, y₄, m₁, m₂, d₁, d₂] := by
    have hlen := u.day_length
    match h : u.day, hlen with
    | [y₁, y₂, y₃, y₄, m₁, m₂, d₁, d₂], _ => exact ⟨y₁, y₂, y₃, y₄, m₁, m₂, d₁, d₂, rfl⟩
  rw [hday] at hdate
  rw [dateOfIso, isoDay, hday, String.toList_ofList]
  exact hdate

end Until

/-! ### The parts -/

theorem listed_eq_none {texts : List (List Char)} : listed texts = none ↔ texts = [] := by
  rw [listed]
  split
  · next h => simp [h]
  · next h => simp [h]

theorem ByDay.text_ne_nil (e : ByDay) : e.text ≠ [] := by
  rw [text]
  apply List.append_ne_nil_of_right_ne_nil
  cases e.day <;> decide

theorem dayName_head (w : Weekday) (rest : List Char) :
    ∀ c ∈ (dayName w ++ rest).head?, isDecimal c = false ∧ c ≠ '+' ∧ c ≠ '-' := by
  intro c hc
  cases w <;> obtain rfl := Option.some.inj hc <;> decide

/-- The ordinal of an entry is read at its start, and nothing where it has none. -/
theorem signedInt_byDay (e : ByDay) (hshort : ∀ n ∈ e.ordinal, n.Short) (rest : List Char) :
    signedInt (e.text ++ rest) = .ok (e.ordinal.map Numeral.value) := by
  have hname := dayName_head e.day rest
  rw [ByDay.text]
  cases hordinal : e.ordinal with
  | some n =>
    rw [Option.map_some, Option.getD_some, List.append_assoc]
    exact n.signedInt_text (hshort n hordinal) fun c hc => (hname c hc).1
  | none =>
    rw [Option.map_none, Option.getD_none, List.nil_append, Option.map_none]
    refine if_pos ?_
    rw [leadingDigits]
    cases htext : dayName e.day ++ rest with
    | nil => rfl
    | cons c text =>
      rw [htext] at hname
      obtain ⟨hdigit, hplus, hminus⟩ := hname c rfl
      simp [unsigned, hplus, hminus, hdigit]

/-- A computation goes on from what was read. -/
theorem ok_bind {ε α β : Type} (a : α) (next : α → Except ε β) : (.ok a >>= next) = next a := rfl

namespace Spelling

variable {r : RRule} (s : Spelling r)

theorem prop_freq : (getProp s.props "FREQ").getD "" = r.freq.text := by
  have hprop : getProp s.props "FREQ" = some (String.ofList r.freq.text.toList) :=
    s.getProp_props .freq
  rw [hprop, Option.getD_some, String.ofList_toList]

theorem ruleInterval_eq (hshort : ∀ n ∈ r.interval, n.Short) :
    ruleInterval s.props = .ok r.step := by
  have hprop : getProp s.props "INTERVAL" = (r.interval.map Numeral.text).map String.ofList :=
    s.getProp_props .interval
  rw [ruleInterval, hprop, RRule.step]
  cases hinterval : r.interval with
  | none => rfl
  | some n =>
    have hpos := (r.interval_pos n hinterval).2
    rw [Option.map_some, Option.map_some, Option.getD_some, n.firstInt_self (hshort n hinterval)]
    exact congrArg Except.ok (if_neg (by omega))

theorem prop_byday : getProp s.props "BYDAY" =
    (listed (r.byday.map ByDay.text)).map String.ofList :=
  s.getProp_props .byday

theorem byday_eq_empty_iff : (getProp s.props "BYDAY").getD "" = "" ↔ r.byday = [] := by
  rw [s.prop_byday]
  cases hbyday : r.byday with
  | nil => exact iff_of_true rfl rfl
  | cons e byday =>
    rw [listed, if_neg (by simp), Option.map_some, Option.getD_some]
    refine iff_of_false (fun h => ?_) (List.cons_ne_nil _ _)
    obtain ⟨tail, hjoined, -⟩ :=
      intercalate_cons_eq_append ',' e.text (byday.map ByDay.text)
    have hnil := congrArg String.toList h
    rw [String.toList_ofList, List.map_cons, hjoined] at hnil
    exact e.text_ne_nil (List.append_eq_nil_iff.mp hnil).1

theorem byday_days : mapDays ((getProp s.props "BYDAY").getD "").toList = r.days := by
  rw [s.prop_byday, RRule.days, listed]
  split
  · next h =>
    rw [List.map_eq_nil_iff] at h
    rw [h]
    rfl
  · rw [Option.map_some, Option.getD_some, String.toList_ofList]
    exact mapDays_intercalate r.byday

/-- A list of numbers is read as its first one. -/
theorem firstInt_numerals {ns : List Numeral} (hshort : ∀ n ∈ ns.head?, n.Short) :
    firstInt (((listed (ns.map Numeral.text)).map String.ofList).getD "") =
      .ok (ns.head?.map Numeral.value) := by
  cases ns with
  | nil => rfl
  | cons n ns =>
    have hlisted : listed ((n :: ns).map Numeral.text) =
        some ([','].intercalate ((n :: ns).map Numeral.text)) := if_neg (by simp)
    rw [hlisted, Option.map_some, Option.getD_some, firstInt_listed (hshort n rfl) hlisted]
    rfl

theorem byday_index (hne : r.byday ≠ []) (hshort : ∀ n ∈ r.positionNumeral, n.Short) :
    weekIndex ((getProp s.props "BYDAY").getD "") s.props = .ok r.index := by
  have hpos : getProp s.props "BYSETPOS" =
      (listed (r.bysetpos.map Numeral.text)).map String.ofList := s.getProp_props .bysetpos
  rw [RRule.positionNumeral] at hshort
  have hfirst : signedInt ((getProp s.props "BYDAY").getD "").toList =
      .ok ((r.byday.head?.bind ByDay.ordinal).map Numeral.value) := by
    rw [s.prop_byday, listed, if_neg (by simpa using hne), Option.map_some, Option.getD_some,
      String.toList_ofList]
    cases hbyday : r.byday with
    | nil => exact absurd hbyday hne
    | cons e byday =>
      obtain ⟨tail, hjoined, -⟩ :=
        intercalate_cons_eq_append ',' e.text (byday.map ByDay.text)
      rw [List.map_cons, hjoined, signedInt_byDay e fun n hn => ?_]
      · rfl
      · rw [hbyday, List.head?_cons, Option.bind_some, show e.ordinal = some n from hn] at hshort
        exact hshort n rfl
  rw [weekIndex, hfirst, hpos, RRule.index, RRule.position, RRule.positionNumeral]
  cases hordinal : r.byday.head?.bind ByDay.ordinal with
  | some n => rfl
  | none =>
    -- without an ordinal the first position counts
    rw [hordinal] at hshort
    rw [Option.map_none, ok_bind, firstInt_numerals hshort]
    cases r.bysetpos.head? with
    | some n => rfl
    | none => rfl

theorem prop_wkst :
    (dayMap ((getProp s.props "WKST").getD "MO").toList).getD .monday = r.weekStart := by
  have hprop : getProp s.props "WKST" = (r.wkst.map dayName).map String.ofList :=
    s.getProp_props .wkst
  rw [hprop, RRule.weekStart]
  cases r.wkst with
  | none => rfl
  | some w =>
    rw [Option.map_some, Option.map_some, Option.getD_some, String.toList_ofList,
      dayMap_dayName]

theorem prop_bymonthday : getProp s.props "BYMONTHDAY" =
    (r.bymonthday.map Numeral.text).map String.ofList :=
  s.getProp_props .bymonthday

/-- The day of the pattern is the one of the rule or of the start. -/
theorem dayOfMonth_eq {startDt : String} {start : Date}
    (h : dateOfIso (slice startDt 0 10) = some start) (hshort : ∀ n ∈ r.bymonthday, n.Short) :
    dayOfMonth s.props startDt = .ok (r.day start) := by
  rw [dayOfMonth, s.prop_bymonthday, RRule.day]
  cases hbymonthday : r.bymonthday with
  | none =>
    rw [Option.map_none, Option.map_none, (start_fields h).2.1]
    rfl
  | some n =>
    -- one number, so what is split at the commas is the number itself
    have hcomma : ',' ∉ n.text := by
      intro hmem
      rcases List.mem_append.mp hmem with hsign | hdigit
      · cases hs : n.sign <;> simp [hs, Sign.text] at hsign
      · exact absurd (n.digits_all _ hdigit) (by decide)
    have hsplit : n.text.splitOn ',' = [n.text] := by
      have hjoined : ([','].intercalate [n.text]).splitOn ',' = [n.text] :=
        List.splitOn_intercalate ',' (by simpa using hcomma) (by simp)
      rwa [List.intercalate_singleton] at hjoined
    have hdays : [n.text].mapM (fun p => firstInt (String.ofList p)) = .ok [some n.value] := by
      rw [List.mapM_cons, n.firstInt_self (hshort n hbymonthday)]
      rfl
    simp only [Option.map_some, String.toList_ofList, hsplit, hdays]
    change Except.ok ([n.value].find? _) = _
    by_cases hpos : 0 < n.value
    · simp [hpos]
    · simp [hpos]

theorem yearlyMonth_eq {startDt : String} {start : Date}
    (h : dateOfIso (slice startDt 0 10) = some start) (hshort : ∀ n ∈ r.bymonth.head?, n.Short) :
    yearlyMonth s.props startDt = .ok (some (r.month start)) := by
  have hprop : getProp s.props "BYMONTH" =
      (listed (r.bymonth.map Numeral.text)).map String.ofList := s.getProp_props .bymonth
  have hfirst := firstInt_numerals hshort
  rw [← hprop] at hfirst
  rw [yearlyMonth, RRule.month]
  cases hbymonth : getProp s.props "BYMONTH" with
  | none =>
    have hnone : r.bymonth = [] := by
      rw [hprop, Option.map_eq_none_iff, listed_eq_none, List.map_eq_nil_iff] at hbymonth
      exact hbymonth
    rw [hnone, (start_fields h).1]
    rfl
  | some v =>
    rw [hbymonth, Option.getD_some] at hfirst
    have hsome : r.bymonth ≠ [] := by
      intro hnil
      rw [hprop, hnil] at hbymonth
      cases hbymonth
    cases hlist : r.bymonth with
    | nil => exact absurd hlist hsome
    | cons n ns =>
      rw [hlist] at hfirst
      simp only [hfirst]
      rfl

theorem month_ne_zero (start : Date) : r.month start ≠ 0 := by
  rw [RRule.month]
  cases hbymonth : r.bymonth with
  | nil =>
    have hpos := start.month_pos
    simp only [List.head?_nil, Option.map_none, Option.getD_none]
    omega
  | cons n ns =>
    have hrange := r.bymonth_range n (hbymonth ▸ List.mem_cons_self)
    simp only [List.head?_cons, Option.map_some, Option.getD_some]
    omega

theorem graphPattern_eq {startDt : String} {start : Date}
    (h : dateOfIso (slice startDt 0 10) = some start) (hread : r.Legible) :
    graphPattern s.props startDt = .ok (r.pattern start) := by
  have hrelative : ¬ r.byday = [] ∧ getProp s.props "BYMONTHDAY" = none ↔ r.Relative := by
    rw [s.prop_bymonthday, Option.map_eq_none_iff, Option.map_eq_none_iff]
    rfl
  rw [graphPattern, RRule.pattern, s.ruleInterval_eq hread.interval]
  simp only [ok_bind, s.prop_freq, s.prop_wkst, s.byday_days, hrelative, ne_eq,
    s.byday_eq_empty_iff, (start_fields h).2.2]
  cases hfreq : r.freq with
  | daily => rfl
  | weekly =>
    simp only [Freq.text, String.reduceEq, if_false, if_true]
    by_cases hbyday : r.byday = []
    · rw [if_neg (not_not.mpr hbyday), if_pos hbyday]
      rfl
    · rw [if_pos hbyday, if_neg hbyday]
      rfl
  | monthly =>
    simp only [Freq.text, String.reduceEq, if_false, if_true]
    by_cases hrel : r.Relative
    · rw [if_pos hrel, if_pos hrel, s.byday_index hrel.1 (hread.index (Or.inl hfreq) hrel)]
      rfl
    · rw [if_neg hrel, if_neg hrel, s.dayOfMonth_eq h (hread.monthDay (Or.inl hfreq))]
      rfl
  | yearly =>
    simp only [Freq.text, String.reduceEq, if_false, if_true,
      s.yearlyMonth_eq h (hread.month hfreq), ok_bind]
    -- the month is a real one, so the rule is not given up here
    refine (if_neg (month_ne_zero start)).trans ?_
    by_cases hrel : r.Relative
    · rw [if_pos hrel, if_pos hrel, s.byday_index hrel.1 (hread.index (Or.inr hfreq) hrel)]
      rfl
    · rw [if_neg hrel, if_neg hrel, s.dayOfMonth_eq h (hread.monthDay (Or.inr hfreq))]
      rfl

theorem graphRange_eq (hshort : ∀ n, r.bound = .count n → n.Short) :
    graphRange s.props = .ok r.rangeEnd := by
  have hcount : getProp s.props "COUNT" = (r.value .count).map String.ofList :=
    s.getProp_props .count
  have hends : getProp s.props "UNTIL" = (r.value .ends).map String.ofList :=
    s.getProp_props .ends
  rw [graphRange, hcount, hends, RRule.value, RRule.value, RRule.rangeEnd]
  cases hbound : r.bound with
  | forever => rfl
  | count n =>
    -- a COUNT has no sign, so int takes all of its text
    have hsign := r.count_bare n hbound
    have htext : n.text = n.digits := by rw [Numeral.text, hsign, Sign.text, List.nil_append]
    have hvalue : n.value = digitsValue n.digits := by
      rw [Numeral.value, hsign, if_neg (by decide)]
    have hint := intOf_digits n.digits_ne n.digits_all (hshort n hbound)
    rw [← hvalue, ← htext] at hint
    simp only [Option.map_some, hint]
    rfl
  | ends u =>
    simp only [Option.map_none, Option.map_some, u.slices_text]

/-- What is made of the text of a rule. -/
theorem rruleToGraph_text {startDt : String} {start : Date}
    (h : dateOfIso (slice startDt 0 10) = some start) (hread : r.Legible)
    (hcount : r.pattern start ≠ none → ∀ n, r.bound = .count n → n.Short) :
    rruleToGraphRecurrence s.text startDt =
      .ok ((r.pattern start).map (fun p => ⟨p, slice startDt 0 10, r.rangeEnd⟩)) := by
  rw [rruleToGraphRecurrence, s.parseRrule_text, s.graphPattern_eq h hread]
  cases hpattern : r.pattern start with
  | none => rfl
  | some p =>
    have hrange := s.graphRange_eq (hcount (by simp [hpattern]))
    simp only [hrange]
    rfl

end Spelling

/-- The last working day of the month, whose ordinal is in BYSETPOS. -/
example : rruleToGraphRecurrence "RRULE:FREQ=MONTHLY;BYDAY=MO,TU,WE,TH,FR;BYSETPOS=-1"
    "2026-03-10T09:00:00" = .ok (some
      ⟨.relativeMonthly 1 [.monday, .tuesday, .wednesday, .thursday, .friday] .last,
        "2026-03-10", .noEnd⟩) := by rfl

end GwsMigrator
