import GwsMigrator.RuleReading

/-! Which rules, well-formed or not, become a recurrence that Graph can accept. -/
namespace GwsMigrator
open Calendar TextEdits

/-- A pattern that Graph can accept. Weekdays and index are of the right names by their types. -/
def GraphPattern.Acceptable : GraphPattern → Prop
  | .daily interval => 1 ≤ interval
  | .weekly interval days _ => 1 ≤ interval ∧ days ≠ [] ∧ days.Nodup
  | .absoluteMonthly interval day => 1 ≤ interval ∧ 1 ≤ day ∧ day ≤ 31
  | .relativeMonthly interval days _ => 1 ≤ interval ∧ days ≠ [] ∧ days.Nodup
  | .absoluteYearly interval day month =>
    1 ≤ interval ∧ (1 ≤ day ∧ day ≤ 31) ∧ 1 ≤ month ∧ month ≤ 12
  | .relativeYearly interval days _ month =>
    1 ≤ interval ∧ (days ≠ [] ∧ days.Nodup) ∧ 1 ≤ month ∧ month ≤ 12

/-- An end of the range that Graph can accept. -/
def RangeEnd.Acceptable : RangeEnd → Prop
  | .numbered n => 1 ≤ n
  | .endDate text => (dateOfIso text).isSome
  | .noEnd => True

/-- No exception, and no recurrence that Graph would refuse. -/
def Accepted : Except Exc (Option GraphRecurrence) → Prop
  | .ok none => True
  | .ok (some recurrence) => recurrence.pattern.Acceptable ∧ recurrence.rangeEnd.Acceptable
  | .error _ => False

/-! ### The numbers of a rule -/

/-- `int` takes the number at the start of a text, if there is one. -/
def ShortNumber (text : List Char) : Prop := (leadingDigits text).length ≤ maxStrDigits

/-- The number at the start of a text. -/
def leadingNumber (text : List Char) : Option ℤ :=
  if leadingDigits text = [] then none else some (signedValue text (leadingDigits text))

/-- The number at the start of a value, behind blanks. -/
def firstNumber (value : String) : Option ℤ := leadingNumber (value.toList.dropWhile isSpace)

def ShortFirst (value : String) : Prop := ShortNumber (value.toList.dropWhile isSpace)

theorem signedInt_of_short {text : List Char} (h : ShortNumber text) :
    signedInt text = .ok (leadingNumber text) := by
  rw [signedInt, leadingNumber, intOfDigits_short h]
  by_cases hnone : leadingDigits text = []
  · rw [if_pos hnone, if_pos hnone]
  · rw [if_neg hnone, if_neg hnone]
    rfl

theorem short_of_signedInt {text : List Char} {n : Option ℤ} (h : signedInt text = .ok n) :
    ShortNumber text ∧ n = leadingNumber text := by
  have hshort : ShortNumber text := by
    by_contra hlong
    have hne : leadingDigits text ≠ [] := by
      intro hnone
      rw [ShortNumber, hnone] at hlong
      exact hlong (Nat.zero_le _)
    have hlength : ¬ (leadingDigits text).length ≤ maxStrDigits := hlong
    rw [signedInt, if_neg hne, intOfDigits, if_neg hlength] at h
    cases h
  rw [signedInt_of_short hshort] at h
  exact ⟨hshort, (Except.ok.inj h).symm⟩

theorem firstInt_of_short {value : String} (h : ShortFirst value) :
    firstInt value = .ok (firstNumber value) :=
  signedInt_of_short h

theorem short_of_firstInt {value : String} {n : Option ℤ} (h : firstInt value = .ok n) :
    ShortFirst value ∧ n = firstNumber value :=
  short_of_signedInt h

/-- All entries of a list are read, or an exception ends the reading. -/
theorem mapM_firstInt {entries : List (List Char)} {days : List (Option ℤ)} :
    entries.mapM (fun p => firstInt (String.ofList p)) = .ok days ↔
      (∀ p ∈ entries, ShortFirst (String.ofList p)) ∧
        days = entries.map (fun p => firstNumber (String.ofList p)) := by
  induction entries generalizing days with
  | nil =>
    rw [List.mapM_nil, List.map_nil]
    exact ⟨fun h => ⟨by simp, (Except.ok.inj h).symm⟩, fun h => congrArg Except.ok h.2.symm⟩
  | cons p entries ih =>
    rw [List.mapM_cons]
    cases hread : firstInt (String.ofList p) with
    | error e =>
      refine iff_of_false (fun h => by cases h) ?_
      rintro ⟨hshort, -⟩
      rw [firstInt_of_short (hshort p List.mem_cons_self)] at hread
      cases hread
    | ok n =>
      obtain ⟨hp, rfl⟩ := short_of_firstInt hread
      rw [ok_bind, List.forall_mem_cons, List.map_cons, and_iff_right hp]
      cases hrest : entries.mapM (fun p => firstInt (String.ofList p)) with
      | error e =>
        refine iff_of_false (fun h => by cases h) ?_
        rintro ⟨hshort, -⟩
        rw [ih.mpr ⟨hshort, rfl⟩] at hrest
        cases hrest
      | ok rest =>
        obtain ⟨hshort, rfl⟩ := ih.mp hrest
        rw [and_iff_right hshort]
        exact ⟨fun h => (Except.ok.inj h).symm, fun h => congrArg Except.ok h.symm⟩

section
variable (props : List (String × String))

def freqOf : String := (getProp props "FREQ").getD ""

def bydayOf : String := (getProp props "BYDAY").getD ""

/-- The rule is for weekdays of a month or a year. -/
def OnWeekdays : Prop := bydayOf props ≠ "" ∧ getProp props "BYMONTHDAY" = none

instance : Decidable (OnWeekdays props) := inferInstanceAs (Decidable (_ ∧ _))

/-- The first positive number of a list. -/
def firstPositive (raw : String) : Option ℤ :=
  ((raw.toList.splitOn ',').filterMap (fun p => firstNumber (String.ofList p))).find? (0 < ·)

/-- A rule without a pattern: of another frequency, in a month 0 or none, or on days counted from
the end of the month only. -/
def Unmapped : Prop :=
  freqOf props ∉ ["DAILY", "WEEKLY", "MONTHLY", "YEARLY"] ∨
    freqOf props = "YEARLY" ∧ (∃ raw ∈ getProp props "BYMONTH", ∀ m ∈ firstNumber raw, m = 0) ∨
    (freqOf props = "MONTHLY" ∨ freqOf props = "YEARLY") ∧
      ∃ raw ∈ getProp props "BYMONTHDAY", firstPositive raw = none

/-- A monthly rule, or a yearly one with a month. -/
def InMonths : Prop :=
  freqOf props = "MONTHLY" ∨ freqOf props = "YEARLY" ∧
    ¬ ∃ raw ∈ getProp props "BYMONTH", ∀ m ∈ firstNumber raw, m = 0

/-- The numbers that are read on the way to the pattern are not too long for `int`. -/
structure ShortNumbers : Prop where
  interval : ∀ raw ∈ getProp props "INTERVAL", ShortFirst raw
  bymonth : freqOf props = "YEARLY" → ∀ raw ∈ getProp props "BYMONTH", ShortFirst raw
  byday : InMonths props → OnWeekdays props → ShortNumber (bydayOf props).toList
  bysetpos : InMonths props → OnWeekdays props → leadingNumber (bydayOf props).toList = none →
    ∀ raw ∈ getProp props "BYSETPOS", ShortFirst raw
  bymonthday : InMonths props → ∀ raw ∈ getProp props "BYMONTHDAY",
    ∀ p ∈ raw.toList.splitOn ',', ShortFirst (String.ofList p)

/-- The parts that make up the pattern are in range. -/
structure PatternParts : Prop where
  interval : ∀ n ∈ (getProp props "INTERVAL").bind firstNumber, 0 ≤ n
  byday : freqOf props = "WEEKLY" ∧ bydayOf props ≠ "" ∨
    (freqOf props = "MONTHLY" ∨ freqOf props = "YEARLY") ∧ OnWeekdays props →
      mapDays (bydayOf props).toList ≠ [] ∧ (mapDays (bydayOf props).toList).Nodup
  bymonthday : freqOf props = "MONTHLY" ∨ freqOf props = "YEARLY" →
    ∀ raw ∈ getProp props "BYMONTHDAY", ∀ day ∈ firstPositive raw, day ≤ 31
  bymonth : freqOf props = "YEARLY" →
    ∀ raw ∈ getProp props "BYMONTH", ∀ m ∈ firstNumber raw, 1 ≤ m ∧ m ≤ 12

/-- A text that begins with the eight digits of a date. -/
def BeginsWithDate (text : String) : Prop :=
  ∃ y₁ y₂ y₃ y₄ m₁ m₂ d₁ d₂ rest, text.toList = [y₁, y₂, y₃, y₄, m₁, m₂, d₁, d₂] ++ rest ∧
    (dateOfDigits [y₁, y₂, y₃, y₄] [m₁, m₂] [d₁, d₂]).isSome

/-- COUNT is a positive number; without it UNTIL is a date, if it is there. -/
def RangeParts : Prop :=
  match getProp props "COUNT", getProp props "UNTIL" with
  | some count, _ => ∃ n, intOf count = .ok n ∧ 1 ≤ n
  | none, some last => BeginsWithDate last
  | none, none => True

variable {props}

theorem short_empty : ShortFirst "" := Nat.zero_le _

/-- A value that may be absent is read as the empty text is. -/
theorem shortFirst_getD {value : Option String} :
    ShortFirst (value.getD "") ↔ ∀ raw ∈ value, ShortFirst raw := by
  cases value with
  | none => exact iff_of_true short_empty (by simp)
  | some raw => simp

variable (props) in
/-- What INTERVAL says, with its default. -/
def intervalOf : ℤ :=
  match firstNumber ((getProp props "INTERVAL").getD "") with
  | some n => if n = 0 then 1 else n
  | none => 1

theorem ruleInterval_eq_ok {n : ℤ} :
    ruleInterval props = .ok n ↔
      (∀ raw ∈ getProp props "INTERVAL", ShortFirst raw) ∧ n = intervalOf props := by
  rw [ruleInterval, ← shortFirst_getD]
  cases hread : firstInt ((getProp props "INTERVAL").getD "") with
  | error e =>
    refine iff_of_false (fun h => by cases h) ?_
    rintro ⟨hshort, -⟩
    rw [firstInt_of_short hshort] at hread
    cases hread
  | ok first =>
    obtain ⟨hshort, rfl⟩ := short_of_firstInt hread
    rw [ok_bind, and_iff_right hshort, intervalOf]
    cases firstNumber ((getProp props "INTERVAL").getD "") with
    | none => exact ⟨fun h => (Except.ok.inj h).symm, fun h => congrArg Except.ok h.symm⟩
    | some m => exact ⟨fun h => (Except.ok.inj h).symm, fun h => congrArg Except.ok h.symm⟩

theorem one_le_intervalOf :
    1 ≤ intervalOf props ↔ ∀ n ∈ (getProp props "INTERVAL").bind firstNumber, 0 ≤ n := by
  have hread : firstNumber ((getProp props "INTERVAL").getD "") =
      (getProp props "INTERVAL").bind firstNumber := by
    cases getProp props "INTERVAL" <;> rfl
  rw [intervalOf, hread]
  cases (getProp props "INTERVAL").bind firstNumber with
  | none => simp
  | some n =>
    by_cases hzero : n = 0
    · simp [hzero]
    · simp only [if_neg hzero, Option.mem_def, Option.some.injEq, forall_eq']
      omega

variable (props) in
/-- The index of a relative pattern is read when its numbers are not too long. -/
theorem weekIndex_isOk_iff :
    (∃ index, weekIndex (bydayOf props) props = .ok index) ↔
      ShortNumber (bydayOf props).toList ∧ (leadingNumber (bydayOf props).toList = none →
        ∀ raw ∈ getProp props "BYSETPOS", ShortFirst raw) := by
  rw [weekIndex, ← shortFirst_getD]
  cases hread : signedInt (bydayOf props).toList with
  | error e =>
    constructor
    · rintro ⟨index, hindex⟩
      cases hindex
    · rintro ⟨hshort, -⟩
      rw [signedInt_of_short hshort] at hread
      cases hread
  | ok ordinal =>
    obtain ⟨hshort, hordinal⟩ := short_of_signedInt hread
    rw [ok_bind, and_iff_right hshort, ← hordinal]
    cases ordinal with
    | some n => exact iff_of_true ⟨_, rfl⟩ (fun h => by cases h)
    | none =>
      cases hpos : firstInt ((getProp props "BYSETPOS").getD "") with
      | error e =>
        constructor
        · rintro ⟨index, hindex⟩
          cases hindex
        · intro h
          rw [firstInt_of_short (h rfl)] at hpos
          cases hpos
      | ok pos =>
        obtain ⟨hpos, -⟩ := short_of_firstInt hpos
        refine iff_of_true ?_ (fun _ => hpos)
        cases pos with
        | none => exact ⟨_, rfl⟩
        | some n => exact ⟨_, rfl⟩

/-- The text that the source makes of UNTIL. -/
def untilText (last : String) : String :=
  slice last 0 4 ++ "-" ++ slice last 4 6 ++ "-" ++ slice last 6 8

theorem toList_untilText (last : String) : (untilText last).toList =
    last.toList.take 4 ++ '-' :: ((last.toList.drop 4).take 2 ++ '-' ::
      (last.toList.drop 6).take 2) := by
  have hmark : "-".toList = ['-'] := rfl
  simp [untilText, slice, hmark]

theorem exists_cons_of_length {α : Type} {n : ℕ} {as : List α} (h : n + 1 ≤ as.length) :
    ∃ a rest, as = a :: rest ∧ n ≤ rest.length := by
  cases as with
  | nil => exact absurd h (Nat.not_succ_le_zero n)
  | cons a rest => exact ⟨a, rest, rfl, Nat.le_of_succ_le_succ h⟩

/-- It is a date when UNTIL begins with the digits of one. -/
theorem untilText_date (last : String) :
    (dateOfIso (untilText last)).isSome ↔ BeginsWithDate last := by
  have hread : ∀ y₁ y₂ y₃ y₄ m₁ m₂ d₁ d₂ rest,
      last.toList = [y₁, y₂, y₃, y₄, m₁, m₂, d₁, d₂] ++ rest →
        dateOfIso (untilText last) = dateOfDigits [y₁, y₂, y₃, y₄] [m₁, m₂] [d₁, d₂] := by
    intro y₁ y₂ y₃ y₄ m₁ m₂ d₁ d₂ rest hlast
    rw [dateOfIso, toList_untilText, hlast]
    rfl
  constructor
  · intro h
    obtain ⟨date, hdate⟩ := Option.isSome_iff_exists.mp h
    obtain ⟨_, _, _, _, _, _, _, _, htext, -⟩ := dateOfIso_eq_some hdate
    -- a shorter text would not give ten characters
    have hlength : 8 ≤ last.toList.length := by
      have hten := congrArg List.length htext
      rw [toList_untilText] at hten
      simp only [List.length_append, List.length_cons, List.length_take, List.length_drop,
        List.length_nil] at hten
      omega
    obtain ⟨y₁, y₂, y₃, y₄, m₁, m₂, d₁, d₂, rest, hlast⟩ : ∃ y₁ y₂ y₃ y₄ m₁ m₂ d₁ d₂ rest,
        last.toList = [y₁, y₂, y₃, y₄, m₁, m₂, d₁, d₂] ++ rest := by
      obtain ⟨y₁, t₁, hy₁, h₁⟩ := exists_cons_of_length hlength
      obtain ⟨y₂, t₂, hy₂, h₂⟩ := exists_cons_of_length h₁
      obtain ⟨y₃, t₃, hy₃, h₃⟩ := exists_cons_of_length h₂
      obtain ⟨y₄, t₄, hy₄, h₄⟩ := exists_cons_of_length h₃
      obtain ⟨m₁, t₅, hm₁, h₅⟩ := exists_cons_of_length h₄
      obtain ⟨m₂, t₆, hm₂, h₆⟩ := exists_cons_of_length h₅
      obtain ⟨d₁, t₇, hd₁, h₇⟩ := exists_cons_of_length h₆
      obtain ⟨d₂, rest, hd₂, -⟩ := exists_cons_of_length h₇
      refine ⟨y₁, y₂, y₃, y₄, m₁, m₂, d₁, d₂, rest, ?_⟩
      rw [hy₁, hy₂, hy₃, hy₄, hm₁, hm₂, hd₁, hd₂]
      rfl
    rw [hread _ _ _ _ _ _ _ _ _ hlast] at h
    exact ⟨y₁, y₂, y₃, y₄, m₁, m₂, d₁, d₂, rest, hlast, h⟩
  · rintro ⟨y₁, y₂, y₃, y₄, m₁, m₂, d₁, d₂, rest, hlast, hdate⟩
    rw [hread _ _ _ _ _ _ _ _ _ hlast]
    exact hdate

theorem graphRange_acceptable :
    (∃ rangeEnd, graphRange props = .ok rangeEnd ∧ rangeEnd.Acceptable) ↔ RangeParts props := by
  rw [graphRange, RangeParts]
  cases getProp props "COUNT" with
  | some count =>
    cases hcount : intOf count with
    | error e => simp [Except.map, hcount]
    | ok n => simp [Except.map, RangeEnd.Acceptable, hcount]
  | none =>
    cases getProp props "UNTIL" with
    | none => simp [RangeEnd.Acceptable]
    | some last =>
      simp only [Except.ok.injEq, exists_eq_left']
      exact untilText_date last

theorem firstPositive_pos {raw : String} {day : ℤ} (h : firstPositive raw = some day) :
    0 < day := by
  have hfound := List.find?_some h
  simpa using hfound

/-- The day that BYMONTHDAY gives, when all of its entries can be read. -/
theorem dayOfMonth_eq_ok (startDt : String) {raw : String}
    (hraw : getProp props "BYMONTHDAY" = some raw)
    {day : Option ℤ} : dayOfMonth props startDt = .ok day ↔
      (∀ p ∈ raw.toList.splitOn ',', ShortFirst (String.ofList p)) ∧ day = firstPositive raw := by
  rw [dayOfMonth, hraw]
  dsimp only
  cases hread : (raw.toList.splitOn ',').mapM (fun p => firstInt (String.ofList p)) with
  | error e =>
    refine iff_of_false (fun h => by cases h) ?_
    rintro ⟨hshort, -⟩
    rw [mapM_firstInt.mpr ⟨hshort, rfl⟩] at hread
    cases hread
  | ok days =>
    obtain ⟨hshort, rfl⟩ := mapM_firstInt.mp hread
    have hdays : ((raw.toList.splitOn ',').map
        (fun p => firstNumber (String.ofList p))).reduceOption.find? (0 < ·) =
        firstPositive raw := by
      change (((raw.toList.splitOn ',').map
        (fun p => firstNumber (String.ofList p))).filterMap id).find? _ = _
      rw [List.filterMap_map]
      rfl
    rw [ok_bind, hdays, and_iff_right hshort]
    exact ⟨fun h => (Except.ok.inj h).symm, fun h => congrArg Except.ok h.symm⟩

variable {startDt : String} {start : Date} (hstart : dateOfIso (slice startDt 0 10) = some start)

include hstart in
/-- The day of an absolute pattern: that of BYMONTHDAY, or the one of the start. -/
theorem dayOfMonth_cases (hshort : ∀ raw ∈ getProp props "BYMONTHDAY",
      ∀ p ∈ raw.toList.splitOn ',', ShortFirst (String.ofList p)) :
    (∃ day : ℤ, dayOfMonth props startDt = .ok (some day) ∧ 1 ≤ day ∧
        (day ≤ 31 ↔ ∀ raw ∈ getProp props "BYMONTHDAY", ∀ d ∈ firstPositive raw, d ≤ 31) ∧
        ¬ ∃ raw ∈ getProp props "BYMONTHDAY", firstPositive raw = none) ∨
      dayOfMonth props startDt = .ok none ∧
        ∃ raw ∈ getProp props "BYMONTHDAY", firstPositive raw = none := by
  cases hprop : getProp props "BYMONTHDAY" with
  | none =>
    left
    refine ⟨start.day, ?_, ?_, ?_, by simp⟩
    · rw [dayOfMonth, hprop, (start_fields hstart).2.1]
      rfl
    · have hpos := start.day_pos
      omega
    · have hle := start.day_le
      have hmonth : daysInMonth start.year start.month ≤ 31 := by
        unfold daysInMonth
        split <;> first | omega | (split <;> omega)
      simp only [Option.not_mem_none, false_implies, implies_true, iff_true]
      omega
  | some raw =>
    have hread := (dayOfMonth_eq_ok startDt hprop).mpr ⟨hshort raw hprop, rfl⟩
    cases hfirst : firstPositive raw with
    | none =>
      rw [hfirst] at hread
      exact Or.inr ⟨hread, raw, rfl, hfirst⟩
    | some day =>
      left
      rw [hfirst] at hread
      refine ⟨day, hread, ?_, ?_, ?_⟩
      · have hpos := firstPositive_pos hfirst
        omega
      · simp [hfirst]
      · simp [hfirst]

include hstart in
/-- The month of a yearly pattern: that of BYMONTH, or the one of the start. -/
theorem yearlyMonth_cases (hshort : ∀ raw ∈ getProp props "BYMONTH", ShortFirst raw) :
    (∃ month : ℤ, yearlyMonth props startDt = .ok (some month) ∧ month ≠ 0 ∧
        (1 ≤ month ∧ month ≤ 12 ↔
          ∀ raw ∈ getProp props "BYMONTH", ∀ m ∈ firstNumber raw, 1 ≤ m ∧ m ≤ 12) ∧
        ¬ ∃ raw ∈ getProp props "BYMONTH", ∀ m ∈ firstNumber raw, m = 0) ∨
      (∃ month : Option ℤ, yearlyMonth props startDt = .ok month ∧ ∀ m ∈ month, m = 0) ∧
        ∃ raw ∈ getProp props "BYMONTH", ∀ m ∈ firstNumber raw, m = 0 := by
  rw [yearlyMonth]
  cases hprop : getProp props "BYMONTH" with
  | none =>
    left
    have hpos := start.month_pos
    have hle := start.month_le
    refine ⟨start.month, ?_, by omega, ?_, by simp⟩
    · rw [(start_fields hstart).1]
      rfl
    · simp only [Option.not_mem_none, false_implies, implies_true, iff_true]
      omega
  | some raw =>
    have hfirst := firstInt_of_short (hshort raw hprop)
    by_cases hzero : ∀ m ∈ firstNumber raw, m = 0
    · exact Or.inr ⟨⟨firstNumber raw, hfirst, hzero⟩, raw, rfl, hzero⟩
    · left
      obtain ⟨month, hmonth, hne⟩ : ∃ month ∈ firstNumber raw, month ≠ 0 := by
        push Not at hzero
        exact hzero
      have hread : firstNumber raw = some month := hmonth
      rw [hread] at hfirst
      refine ⟨month, hfirst, hne, ?_, ?_⟩
      · simp [hread]
      · simp [hread, hne]

variable (props startDt) in
/-- Either there is no pattern, or there is one that is as good as the parts of the rule. -/
def PatternCases : Prop :=
  Unmapped props ∧ graphPattern props startDt = .ok none ∨
    ¬ Unmapped props ∧ ∃ pattern, graphPattern props startDt = .ok (some pattern) ∧
      (pattern.Acceptable ↔ PatternParts props)

section
variable {interval : ℤ} (hinterval : ruleInterval props = .ok interval)

include hinterval in
theorem graphPattern_daily (hfreq : freqOf props = "DAILY") :
    graphPattern props startDt = .ok (some (.daily interval)) := by
  rw [freqOf] at hfreq
  simp only [graphPattern, hinterval, ok_bind, hfreq, if_true]
  rfl

include hstart hinterval in
theorem graphPattern_weekly (hfreq : freqOf props = "WEEKLY") :
    graphPattern props startDt = .ok (some (.weekly interval
      (if bydayOf props ≠ "" then mapDays (bydayOf props).toList else [start.weekday])
      ((dayMap ((getProp props "WKST").getD "MO").toList).getD .monday))) := by
  rw [freqOf] at hfreq
  have hbydayOf : (getProp props "BYDAY").getD "" = bydayOf props := rfl
  simp only [graphPattern, hinterval, ok_bind, hfreq, String.reduceEq, if_false, if_true,
    (start_fields hstart).2.2, hbydayOf]
  by_cases hbyday : bydayOf props = ""
  · rw [if_neg (not_not.mpr hbyday), if_neg (not_not.mpr hbyday)]
    rfl
  · rw [if_pos hbyday, if_pos hbyday]
    rfl

include hinterval in
theorem graphPattern_monthly (hfreq : freqOf props = "MONTHLY") :
    graphPattern props startDt =
      if OnWeekdays props then
        (weekIndex (bydayOf props) props).map (fun index =>
          some (.relativeMonthly interval (mapDays (bydayOf props).toList) index))
      else (dayOfMonth props startDt).map (fun day => day.map (.absoluteMonthly interval)) := by
  rw [freqOf] at hfreq
  simp only [graphPattern, hinterval, ok_bind, hfreq, String.reduceEq, if_false, if_true]
  rfl

include hinterval in
theorem graphPattern_yearly (hfreq : freqOf props = "YEARLY") {month : ℤ}
    (hmonth : yearlyMonth props startDt = .ok (some month)) (hne : month ≠ 0) :
    graphPattern props startDt =
      if OnWeekdays props then
        (weekIndex (bydayOf props) props).map (fun index =>
          some (.relativeYearly interval (mapDays (bydayOf props).toList) index month))
      else (dayOfMonth props startDt).map (fun day =>
        day.map (fun d => .absoluteYearly interval d month)) := by
  rw [freqOf] at hfreq
  simp only [graphPattern, hinterval, ok_bind, hfreq, String.reduceEq, if_false, if_true, hmonth]
  exact if_neg hne

include hinterval in
theorem graphPattern_yearly_none (hfreq : freqOf props = "YEARLY") {month : Option ℤ}
    (hmonth : yearlyMonth props startDt = .ok month) (hzero : ∀ m ∈ month, m = 0) :
    graphPattern props startDt = .ok none := by
  rw [freqOf] at hfreq
  simp only [graphPattern, hinterval, ok_bind, hfreq, String.reduceEq, if_false, if_true, hmonth]
  cases month with
  | none => rfl
  | some m => exact if_pos (hzero m rfl)

end

section
variable (hshort : ShortNumbers props)

include hshort

theorem ruleInterval_of_short : ruleInterval props = .ok (intervalOf props) :=
  ruleInterval_eq_ok.mpr ⟨hshort.interval, rfl⟩

theorem daily_cases (hfreq : freqOf props = "DAILY") : PatternCases props startDt := by
  right
  refine ⟨by simp [Unmapped, hfreq], _, graphPattern_daily (ruleInterval_of_short hshort) hfreq, ?_⟩
  rw [GraphPattern.Acceptable, one_le_intervalOf]
  constructor
  · exact fun h => ⟨h, by simp [hfreq], by simp [hfreq], by simp [hfreq]⟩
  · exact fun h => h.interval

include hstart in
theorem weekly_cases (hfreq : freqOf props = "WEEKLY") : PatternCases props startDt := by
  right
  refine ⟨by simp [Unmapped, hfreq], _,
    graphPattern_weekly hstart (ruleInterval_of_short hshort) hfreq, ?_⟩
  have hparts : PatternParts props ↔ 1 ≤ intervalOf props ∧ (bydayOf props ≠ "" →
      mapDays (bydayOf props).toList ≠ [] ∧ (mapDays (bydayOf props).toList).Nodup) := by
    rw [one_le_intervalOf]
    constructor
    · exact fun h => ⟨h.interval, fun hne => h.byday (Or.inl ⟨hfreq, hne⟩)⟩
    · intro h
      exact ⟨h.1, by simpa [hfreq] using h.2, by simp [hfreq], by simp [hfreq]⟩
  rw [hparts, GraphPattern.Acceptable]
  by_cases hbyday : bydayOf props = ""
  · -- the weekday of the start
    simp [hbyday]
  · simp [hbyday]

include hstart in
theorem monthly_cases (hfreq : freqOf props = "MONTHLY") : PatternCases props startDt := by
  have hmonths : InMonths props := Or.inl hfreq
  rw [PatternCases, graphPattern_monthly (ruleInterval_of_short hshort) hfreq]
  have hunmapped : Unmapped props ↔
      ∃ raw ∈ getProp props "BYMONTHDAY", firstPositive raw = none := by
    simp [Unmapped, hfreq]
  have hparts : PatternParts props ↔ 1 ≤ intervalOf props ∧
      (OnWeekdays props →
        mapDays (bydayOf props).toList ≠ [] ∧ (mapDays (bydayOf props).toList).Nodup) ∧
      ∀ raw ∈ getProp props "BYMONTHDAY", ∀ day ∈ firstPositive raw, day ≤ 31 := by
    rw [one_le_intervalOf]
    constructor
    · intro h
      exact ⟨h.interval, fun hrel => h.byday (Or.inr ⟨Or.inl hfreq, hrel⟩),
        h.bymonthday (Or.inl hfreq)⟩
    · intro h
      exact ⟨h.1, by simpa [hfreq] using h.2.1, fun _ => h.2.2, by simp [hfreq]⟩
  rw [hunmapped, hparts]
  by_cases hrel : OnWeekdays props
  · right
    obtain ⟨index, hindex⟩ := (weekIndex_isOk_iff props).mpr
      ⟨hshort.byday hmonths hrel, hshort.bysetpos hmonths hrel⟩
    rw [if_pos hrel, hindex]
    refine ⟨by simp [hrel.2], _, rfl, ?_⟩
    simp [GraphPattern.Acceptable, hrel, hrel.2]
  · rw [if_neg hrel]
    rcases dayOfMonth_cases hstart (hshort.bymonthday hmonths) with ⟨day, hday, hpos, hle, hsome⟩ | ⟨hday, hnone⟩
    · right
      rw [hday]
      refine ⟨hsome, _, rfl, ?_⟩
      rw [GraphPattern.Acceptable, ← hle]
      simp [hrel, hpos]
    · left
      rw [hday]
      exact ⟨hnone, rfl⟩

include hstart in
theorem yearly_cases (hfreq : freqOf props = "YEARLY") : PatternCases props startDt := by
  have hunmapped : Unmapped props ↔
      (∃ raw ∈ getProp props "BYMONTH", ∀ m ∈ firstNumber raw, m = 0) ∨
        ∃ raw ∈ getProp props "BYMONTHDAY", firstPositive raw = none := by
    simp [Unmapped, hfreq]
  have hparts : PatternParts props ↔ 1 ≤ intervalOf props ∧
      (OnWeekdays props →
        mapDays (bydayOf props).toList ≠ [] ∧ (mapDays (bydayOf props).toList).Nodup) ∧
      (∀ raw ∈ getProp props "BYMONTHDAY", ∀ day ∈ firstPositive raw, day ≤ 31) ∧
      ∀ raw ∈ getProp props "BYMONTH", ∀ m ∈ firstNumber raw, 1 ≤ m ∧ m ≤ 12 := by
    rw [one_le_intervalOf]
    constructor
    · intro h
      exact ⟨h.interval, fun hrel => h.byday (Or.inr ⟨Or.inr hfreq, hrel⟩),
        h.bymonthday (Or.inr hfreq), h.bymonth hfreq⟩
    · intro h
      exact ⟨h.1, by simpa [hfreq] using h.2.1, fun _ => h.2.2.1, fun _ => h.2.2.2⟩
  rw [PatternCases, hunmapped, hparts]
  rcases yearlyMonth_cases hstart (hshort.bymonth hfreq) with
    ⟨month, hmonth, hne, hrange, hnonzero⟩ | ⟨⟨month, hmonth, hzero⟩, hnone⟩
  · have hmonths : InMonths props := Or.inr ⟨hfreq, hnonzero⟩
    rw [graphPattern_yearly (ruleInterval_of_short hshort) hfreq hmonth hne, ← hrange,
      or_iff_right hnonzero]
    by_cases hrel : OnWeekdays props
    · right
      obtain ⟨index, hindex⟩ := (weekIndex_isOk_iff props).mpr
        ⟨hshort.byday hmonths hrel, hshort.bysetpos hmonths hrel⟩
      rw [if_pos hrel, hindex]
      refine ⟨by simp [hrel.2], _, rfl, ?_⟩
      simp [GraphPattern.Acceptable, hrel, hrel.2]
    · rw [if_neg hrel]
      rcases dayOfMonth_cases hstart (hshort.bymonthday hmonths) with
        ⟨day, hday, hpos, hle, hsome⟩ | ⟨hday, hnone⟩
      · right
        rw [hday]
        refine ⟨hsome, _, rfl, ?_⟩
        rw [GraphPattern.Acceptable, ← hle]
        simp [hrel, hpos]
      · left
        rw [hday]
        exact ⟨hnone, rfl⟩
  · left
    exact ⟨Or.inl hnone,
      graphPattern_yearly_none (ruleInterval_of_short hshort) hfreq hmonth hzero⟩

include hstart in
theorem graphPattern_cases : PatternCases props startDt := by
  by_cases hdaily : freqOf props = "DAILY"
  · exact daily_cases hshort hdaily
  by_cases hweekly : freqOf props = "WEEKLY"
  · exact weekly_cases hstart hshort hweekly
  by_cases hmonthly : freqOf props = "MONTHLY"
  · exact monthly_cases hstart hshort hmonthly
  by_cases hyearly : freqOf props = "YEARLY"
  · exact yearly_cases hstart hshort hyearly
  · left
    refine ⟨Or.inl (by simp [hdaily, hweekly, hmonthly, hyearly]), ?_⟩
    rw [freqOf] at hdaily hweekly hmonthly hyearly
    simp only [graphPattern, ruleInterval_of_short hshort, ok_bind, if_neg hdaily, if_neg hweekly,
      if_neg hmonthly, if_neg hyearly]
    rfl

end

/-- Without an exception the one of two computations that is made gives a result. -/
theorem read_of_ok {α β γ : Type} {f : α → β} {g : γ → β} {index : Except Exc α}
    {day : Except Exc γ} {P : Prop} [Decidable P] {result : β}
    (h : (if P then index.map f else day.map g) = .ok result) :
    (P → ∃ a, index = .ok a) ∧ (¬ P → ∃ c, day = .ok c) := by
  by_cases hP : P
  · rw [if_pos hP] at h
    refine ⟨fun _ => ?_, fun hnot => absurd hP hnot⟩
    cases index with
    | error e => cases h
    | ok a => exact ⟨a, rfl⟩
  · rw [if_neg hP] at h
    refine ⟨fun hyes => absurd hyes hP, fun _ => ?_⟩
    cases day with
    | error e => cases h
    | ok c => exact ⟨c, rfl⟩

/-- Numbers that were read are not too long. -/
theorem shortNumbers_intro (startDt : String)
    (hinterval : ∀ raw ∈ getProp props "INTERVAL", ShortFirst raw)
    (hbymonth : freqOf props = "YEARLY" → ∀ raw ∈ getProp props "BYMONTH", ShortFirst raw)
    (hpattern : InMonths props →
      (OnWeekdays props → ∃ index, weekIndex (bydayOf props) props = .ok index) ∧
        (¬ OnWeekdays props → ∃ day, dayOfMonth props startDt = .ok day)) :
    ShortNumbers props := by
  refine ⟨hinterval, hbymonth, fun hmonths hrel => ?_, fun hmonths hrel => ?_,
    fun hmonths raw hraw => ?_⟩
  · exact ((weekIndex_isOk_iff props).mp ((hpattern hmonths).1 hrel)).1
  · exact ((weekIndex_isOk_iff props).mp ((hpattern hmonths).1 hrel)).2
  · have habsolute : ¬ OnWeekdays props := by
      rintro ⟨-, hnone⟩
      rw [hnone] at hraw
      cases hraw
    obtain ⟨day, hread⟩ := (hpattern hmonths).2 habsolute
    exact ((dayOfMonth_eq_ok startDt hraw).mp hread).1

include hstart in
/-- Without an exception all numbers that are read are short. -/
theorem shortNumbers_of_ok {result : Option GraphPattern}
    (h : graphPattern props startDt = .ok result) : ShortNumbers props := by
  cases hread : ruleInterval props with
  | error e =>
    rw [graphPattern, hread] at h
    cases h
  | ok interval =>
    have hinterval := (ruleInterval_eq_ok.mp hread).1
    by_cases hmonthly : freqOf props = "MONTHLY"
    · rw [graphPattern_monthly hread hmonthly] at h
      exact shortNumbers_intro startDt hinterval (by simp [hmonthly]) (fun _ => read_of_ok h)
    by_cases hyearly : freqOf props = "YEARLY"
    · have hbymonth : ∀ raw ∈ getProp props "BYMONTH", ShortFirst raw := by
        intro raw hraw
        have hprop : getProp props "BYMONTH" = some raw := hraw
        cases hfirst : firstInt raw with
        | error e =>
          have hfreq : (getProp props "FREQ").getD "" = "YEARLY" := hyearly
          simp only [graphPattern, hread, ok_bind, hfreq, String.reduceEq, if_false, if_true,
            yearlyMonth, hprop, hfirst] at h
          cases h
        | ok n => exact (short_of_firstInt hfirst).1
      refine shortNumbers_intro startDt hinterval (fun _ => hbymonth)
        (fun hmonths => ?_)
      rcases yearlyMonth_cases hstart hbymonth with ⟨month, hmonth, hne, -⟩ | ⟨-, hnone⟩
      · rw [graphPattern_yearly hread hyearly hmonth hne] at h
        exact read_of_ok h
      · rcases hmonths with hfreq | ⟨-, hsome⟩
        · exact absurd hfreq hmonthly
        · exact absurd hnone hsome
    · have hnone : ¬ InMonths props := by simp [InMonths, hmonthly, hyearly]
      exact shortNumbers_intro startDt hinterval
        (fun hfreq => absurd hfreq hyearly) (fun hmonths => absurd hmonths hnone)

end

end GwsMigrator
