import GwsMigrator.Calendar
import GwsMigrator.GraphCalls
import GwsMigrator.Separators
import GwsMigrator.TextEdits

/-! `transform/recurrence.py`: a recurrence of Graph for an RRULE. -/
namespace GwsMigrator
open Calendar TextEdits

/-- The `index` of a relative pattern. -/
inductive WeekIndex where
  | first | second | third | fourth | last
deriving DecidableEq

/-- A `recurrencePattern`, by its type. -/
inductive GraphPattern where
  | daily (interval : ℤ)
  | weekly (interval : ℤ) (daysOfWeek : List Weekday) (firstDayOfWeek : Weekday)
  | absoluteMonthly (interval dayOfMonth : ℤ)
  | relativeMonthly (interval : ℤ) (daysOfWeek : List Weekday) (index : WeekIndex)
  | absoluteYearly (interval dayOfMonth month : ℤ)
  | relativeYearly (interval : ℤ) (daysOfWeek : List Weekday) (index : WeekIndex) (month : ℤ)
deriving DecidableEq

/-- The type of a `recurrenceRange` and what goes with it. -/
inductive RangeEnd where
  | numbered (numberOfOccurrences : ℤ)
  | endDate (endDate : String)
  | noEnd
deriving DecidableEq

structure GraphRecurrence where
  pattern : GraphPattern
  startDate : String
  rangeEnd : RangeEnd
deriving DecidableEq

/-- `_DAY_MAP`. -/
def dayMap : List Char → Option Weekday
  | ['M', 'O'] => some .monday
  | ['T', 'U'] => some .tuesday
  | ['W', 'E'] => some .wednesday
  | ['T', 'H'] => some .thursday
  | ['F', 'R'] => some .friday
  | ['S', 'A'] => some .saturday
  | ['S', 'U'] => some .sunday
  | _ => none

/-- `_INDEX_MAP.get(n, "first")`. -/
def indexMap (n : ℤ) : WeekIndex :=
  if n = 2 then .second
  else if n = 3 then .third
  else if n = 4 then .fourth
  else if n = -1 then .last
  else .first

/-- The zeros among the decimal digits of Unicode. The other nine follow each of them. -/
def decimalZeros : List ℕ :=
  [0x30, 0x660, 0x6f0, 0x7c0, 0x966, 0x9e6, 0xa66, 0xae6, 0xb66, 0xbe6, 0xc66, 0xce6, 0xd66, 0xde6,
    0xe50, 0xed0, 0xf20, 0x1040, 0x1090, 0x17e0, 0x1810, 0x1946, 0x19d0, 0x1a80, 0x1a90, 0x1b50,
    0x1bb0, 0x1c40, 0x1c50, 0xa620, 0xa8d0, 0xa900, 0xa9d0, 0xa9f0, 0xaa50, 0xabf0, 0xff10, 0x104a0,
    0x10d30, 0x11066, 0x110f0, 0x11136, 0x111d0, 0x112f0, 0x11450, 0x114d0, 0x11650, 0x116c0,
    0x11730, 0x118e0, 0x11950, 0x11c50, 0x11d50, 0x11da0, 0x16a60, 0x16ac0, 0x16b50, 0x1d7ce,
    0x1d7d8, 0x1d7e2, 0x1d7ec, 0x1d7f6, 0x1e140, 0x1e2f0, 0x1e950, 0x1fbf0]

/-- The digit that a character stands for. -/
def decimalDigit (c : Char) : Option ℕ :=
  (decimalZeros.find? (fun zero => zero ≤ c.toNat ∧ c.toNat < zero + 10)).map (c.toNat - ·)

/-- The characters that `\d` takes. -/
def isDecimal (c : Char) : Bool := (decimalDigit c).isSome

/-- The number that decimal digits write. -/
def digitsValue (digits : List Char) : ℕ :=
  digits.foldl (fun n c => 10 * n + (decimalDigit c).getD 0) 0

/-- A text behind its sign. -/
def unsigned (text : List Char) : List Char :=
  if text.head? = some '+' ∨ text.head? = some '-' then text.tail else text

/-- The number that digits write behind the sign of a text. -/
def signedValue (text digits : List Char) : ℤ :=
  if text.head? = some '-' then -(digitsValue digits : ℤ) else digitsValue digits

/-- The most digits that `int` takes. -/
def maxStrDigits : ℕ := 4300

/-- `int` of digits behind the sign of a text. -/
def intOfDigits (text digits : List Char) : Except Exc ℤ :=
  if digits.length ≤ maxStrDigits then .ok (signedValue text digits)
  else
    .error (.other (s!"Exceeds the limit ({maxStrDigits} digits) for integer string conversion: " ++
      s!"value has {digits.length} digits; use sys.set_int_max_str_digits() to increase the limit"))

/-- The digits of the match of `[+-]?\d+` at the start of a text. -/
def leadingDigits (text : List Char) : List Char := (unsigned text).takeWhile isDecimal

/-- The match of `[+-]?\d+` at the start of a text, as a number. -/
def signedInt (text : List Char) : Except Exc (Option ℤ) :=
  if leadingDigits text = [] then .ok none else (intOfDigits text (leadingDigits text)).map some

/-- `_first_int`. -/
def firstInt (value : String) : Except Exc (Option ℤ) :=
  signedInt (value.toList.dropWhile isSpace)

/-- The digits of a literal of `int`, between which single underscores may stand. -/
def literalDigits : List Char → Option (List Char)
  | [] => none
  | [c] => if isDecimal c then some [c] else none
  | c :: '_' :: rest => if isDecimal c then (literalDigits rest).map (c :: ·) else none
  | c :: d :: rest => if isDecimal c then (literalDigits (d :: rest)).map (c :: ·) else none

/-- `int(text)`. -/
def intOf (text : String) : Except Exc ℤ :=
  let stripped := strip isSpace text.toList
  match literalDigits (unsigned stripped) with
  | some digits => intOfDigits stripped digits
  | none => .error (.other s!"invalid literal for int() with base 10: '{text}'")

/-- `text[start:stop]`. -/
def slice (text : String) (start stop : ℕ) : String :=
  String.ofList ((text.toList.drop start).take (stop - start))

/-- A date of four, two and two digits. -/
def dateOfDigits (year month day : List Char) : Option Date :=
  if (year ++ month ++ day).all Char.isDigit then
    Date.of? (digitsValue year) (digitsValue month) (digitsValue day)
  else none

/-- The text of a date, `2024-01-31`. -/
def dateOfIso (text : String) : Option Date :=
  match text.toList with
  | [y₁, y₂, y₃, y₄, '-', m₁, m₂, '-', d₁, d₂] => dateOfDigits [y₁, y₂, y₃, y₄] [m₁, m₂] [d₁, d₂]
  | _ => none

/-- `_parse_rrule`, the pairs of the dict in the order in which they are put in. -/
def parseRrule (rrule : String) : List (String × String) :=
  let text := if "RRULE:".toList <+: rrule.toList then rrule.toList.drop 6 else rrule.toList
  (text.splitOn ';').filterMap (fun part =>
    if '=' ∈ part then
      some (String.ofList (part.takeWhile (· ≠ '=')), String.ofList (part.dropWhile (· ≠ '=')).tail)
    else none)

/-- `props.get(key)`: a later pair is put over an earlier one. -/
def getProp (props : List (String × String)) (key : String) : Option String :=
  (props.reverse.find? (·.1 = key)).map Prod.snd

/-- `_map_days`: the pairs of capitals from the left that are days. -/
def mapDays : List Char → List Weekday
  | c :: d :: rest =>
    if c.isUpper ∧ d.isUpper then (dayMap [c, d]).toList ++ mapDays rest else mapDays (d :: rest)
  | _ => []

/-- `_weekday_from_dt`. -/
def weekdayFromDt (isoDt : String) : Except Exc Weekday :=
  match dateOfIso (slice isoDt 0 10) with
  | some date => .ok date.weekday
  | none => .error (.other s!"Invalid isoformat string: '{slice isoDt 0 10}'")

/-- `_day_of_month`. -/
def dayOfMonth (props : List (String × String)) (startDt : String) : Except Exc (Option ℤ) :=
  match getProp props "BYMONTHDAY" with
  | none => (intOf (slice startDt 8 10)).map some
  | some raw => do
    -- all entries are read before the first positive one is taken
    let days ← (raw.toList.splitOn ',').mapM (fun p => firstInt (String.ofList p))
    return days.reduceOption.find? (0 < ·)

/-- `_week_index`. -/
def weekIndex (byday : String) (props : List (String × String)) : Except Exc WeekIndex := do
  match ← signedInt byday.toList with
  | some n => return indexMap n
  | none =>
    match ← firstInt ((getProp props "BYSETPOS").getD "") with
    | some pos => return indexMap pos
    | none => return .first

/-- The month of a yearly rule. -/
def yearlyMonth (props : List (String × String)) (startDt : String) : Except Exc (Option ℤ) :=
  match getProp props "BYMONTH" with
  | some bymonth => firstInt bymonth
  | none => (intOf (slice startDt 5 7)).map some

/-- `_first_int(props.get("INTERVAL", "")) or 1`. -/
def ruleInterval (props : List (String × String)) : Except Exc ℤ := do
  match ← firstInt ((getProp props "INTERVAL").getD "") with
  | some n => return if n = 0 then 1 else n
  | none => return 1

/-- The pattern of a rule, `none` where there is none. -/
def graphPattern (props : List (String × String)) (startDt : String) :
    Except Exc (Option GraphPattern) := do
  let freq := (getProp props "FREQ").getD ""
  let interval ← ruleInterval props
  let byday := (getProp props "BYDAY").getD ""
  let relative := byday ≠ "" ∧ getProp props "BYMONTHDAY" = none
  if freq = "DAILY" then
    return some (.daily interval)
  else if freq = "WEEKLY" then
    let days ← if byday ≠ "" then pure (mapDays byday.toList)
      else (weekdayFromDt startDt).map (fun day => [day])
    let wkst := (getProp props "WKST").getD "MO"
    return some (.weekly interval days ((dayMap wkst.toList).getD .monday))
  else if freq = "MONTHLY" then
    if relative then
      return some (.relativeMonthly interval (mapDays byday.toList) (← weekIndex byday props))
    else
      return (← dayOfMonth props startDt).map (.absoluteMonthly interval)
  else if freq = "YEARLY" then
    match ← yearlyMonth props startDt with
    | none => return none
    | some month =>
      if month = 0 then return none
      else if relative then
        return some (.relativeYearly interval (mapDays byday.toList) (← weekIndex byday props)
          month)
      else
        return (← dayOfMonth props startDt).map (fun day => .absoluteYearly interval day month)
  else
    return none

/-- The end of the range. -/
def graphRange (props : List (String × String)) : Except Exc RangeEnd :=
  match getProp props "COUNT", getProp props "UNTIL" with
  | some count, _ => (intOf count).map .numbered
  | none, some last =>
    .ok (.endDate (slice last 0 4 ++ "-" ++ slice last 4 6 ++ "-" ++ slice last 6 8))
  | none, none => .ok .noEnd

/-- `rrule_to_graph_recurrence`. -/
def rruleToGraphRecurrence (rruleStr startDt : String) :
    Except Exc (Option GraphRecurrence) := do
  let props := parseRrule rruleStr
  match ← graphPattern props startDt with
  | none => return none
  | some pattern => return some ⟨pattern, slice startDt 0 10, ← graphRange props⟩

end GwsMigrator
