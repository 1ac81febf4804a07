import GwsMigrator.Recurrence

/-! The well-formed RRULE texts, and what `rrule_to_graph_recurrence` reads in them. -/
namespace GwsMigrator
open Calendar Separators TextEdits

inductive Sign where
  | bare | plus | minus
deriving DecidableEq

def Sign.text : Sign → List Char
  | .bare => []
  | .plus => ['+']
  | .minus => ['-']

/-- A number as it is written, with its sign and leading zeros. -/
structure Numeral where
  sign : Sign
  digits : List Char
  digits_ne : digits ≠ []
  digits_all : ∀ c ∈ digits, c.isDigit = true

namespace Numeral

def text (n : Numeral) : List Char := n.sign.text ++ n.digits

def value (n : Numeral) : ℤ :=
  if n.sign = .minus then -(digitsValue n.digits : ℤ) else digitsValue n.digits

/-- A number with no more digits than `int` takes. -/
def Short (n : Numeral) : Prop := n.digits.length ≤ maxStrDigits

end Numeral

/-- An entry of BYDAY. -/
structure ByDay where
  ordinal : Option Numeral
  day : Weekday

/-- The name of a weekday in a rule. -/
def dayName : Weekday → List Char
  | .monday => ['M', 'O']
  | .tuesday => ['T', 'U']
  | .wednesday => ['W', 'E']
  | .thursday => ['T', 'H']
  | .friday => ['F', 'R']
  | .saturday => ['S', 'A']
  | .sunday => ['S', 'U']

def ByDay.text (e : ByDay) : List Char := (e.ordinal.map Numeral.text).getD [] ++ dayName e.day

/-- The last moment of a rule: a date, or a date with a time of six digits. -/
structure Until where
  day : List Char
  date : Date
  day_length : day.length = 8
  day_date : dateOfDigits (day.take 4) ((day.drop 4).take 2) (day.drop 6) = some date
  time : Option (List Char)
  time_digits : ∀ digits ∈ time, digits.length = 6 ∧ ∀ c ∈ digits, c.isDigit = true
  utc : Bool

def Until.text (u : Until) : List Char :=
  match u.time with
  | none => u.day
  | some digits => u.day ++ 'T' :: digits ++ (if u.utc then ['Z'] else [])

inductive Freq where
  | daily | weekly | monthly | yearly
deriving DecidableEq

def Freq.text : Freq → String
  | .daily => "DAILY"
  | .weekly => "WEEKLY"
  | .monthly => "MONTHLY"
  | .yearly => "YEARLY"

inductive Bound where
  | forever
  | count (n : Numeral)
  | ends (u : Until)

/-- A well-formed rule. A list is empty where its part is absent. -/
structure RRule where
  freq : Freq
  interval : Option Numeral
  byday : List ByDay
  bymonth : List Numeral
  bymonthday : Option Numeral
  bysetpos : List Numeral
  byweekno : List Numeral
  wkst : Option Weekday
  bound : Bound
  interval_pos : ∀ n ∈ interval, n.sign = .bare ∧ 1 ≤ n.value
  bymonth_range : ∀ n ∈ bymonth, n.sign = .bare ∧ 1 ≤ n.value ∧ n.value ≤ 12
  bymonthday_range : ∀ n ∈ bymonthday, n.value ≠ 0 ∧ n.value.natAbs ≤ 31
  bysetpos_range : ∀ n ∈ bysetpos, n.value ≠ 0 ∧ n.value.natAbs ≤ 366
  byweekno_range : ∀ n ∈ byweekno, n.value ≠ 0 ∧ n.value.natAbs ≤ 53
  ordinal_range : ∀ e ∈ byday, ∀ n ∈ e.ordinal, n.value ≠ 0 ∧ n.value.natAbs ≤ 53
  count_bare : ∀ n, bound = .count n → n.sign = .bare
  -- where a part may not stand
  ordinal_freq : (∃ e ∈ byday, e.ordinal.isSome) →
    freq = .monthly ∨ freq = .yearly ∧ byweekno = []
  bymonthday_freq : bymonthday.isSome → freq ≠ .weekly
  byweekno_freq : byweekno ≠ [] → freq = .yearly
  bysetpos_by : bysetpos ≠ [] → byday ≠ [] ∨ bymonth ≠ [] ∨ bymonthday.isSome ∨ byweekno ≠ []

inductive RulePart where
  | freq | interval | byday | bymonth | bymonthday | bysetpos | byweekno | wkst | count | ends
deriving DecidableEq

def RulePart.name : RulePart → String
  | .freq => "FREQ"
  | .interval => "INTERVAL"
  | .byday => "BYDAY"
  | .bymonth => "BYMONTH"
  | .bymonthday => "BYMONTHDAY"
  | .bysetpos => "BYSETPOS"
  | .byweekno => "BYWEEKNO"
  | .wkst => "WKST"
  | .count => "COUNT"
  | .ends => "UNTIL"

/-- The values of a part between commas. -/
def listed (texts : List (List Char)) : Option (List Char) :=
  if texts = [] then none else some ([','].intercalate texts)

namespace RRule

/-- The text of a part, where the rule has it. -/
def value (r : RRule) : RulePart → Option (List Char)
  | .freq => some r.freq.text.toList
  | .interval => r.interval.map Numeral.text
  | .byday => listed (r.byday.map ByDay.text)
  | .bymonth => listed (r.bymonth.map Numeral.text)
  | .bymonthday => r.bymonthday.map Numeral.text
  | .bysetpos => listed (r.bysetpos.map Numeral.text)
  | .byweekno => listed (r.byweekno.map Numeral.text)
  | .wkst => r.wkst.map dayName
  | .count =>
    match r.bound with
    | .count n => some n.text
    | _ => none
  | .ends =>
    match r.bound with
    | .ends u => some u.text
    | _ => none

end RRule

/-- A text of a rule: its parts in any order, with or without the name of the property. -/
structure Spelling (r : RRule) where
  order : List RulePart
  nodup : order.Nodup
  mem_iff : ∀ p, p ∈ order ↔ (r.value p).isSome
  named : Bool

namespace Spelling

variable {r : RRule}

def parts (s : Spelling r) : List (List Char) :=
  s.order.filterMap (fun p => (r.value p).map (fun v => p.name.toList ++ '=' :: v))

def text (s : Spelling r) : String :=
  String.ofList ((if s.named then "RRULE:".toList else []) ++ [';'].intercalate s.parts)

end Spelling

theorem ne_of_isDigit {c d : Char} (h : c.isDigit = true) (hd : d.isDigit = false) : c ≠ d := by
  rintro rfl
  rw [h] at hd
  cases hd

theorem digit_range {c : Char} (h : c.isDigit = true) : 48 ≤ c.toNat ∧ c.toNat ≤ 57 := by
  simpa [Char.isDigit, UInt32.le_iff_toNat_le] using h

theorem isUpper_of_isDigit {c : Char} (h : c.isDigit = true) : c.isUpper = false := by
  have hrange := digit_range h
  have hupper : ¬ ('A'.val ≤ c.val ∧ c.val ≤ 'Z'.val) := by
    rw [UInt32.le_iff_toNat_le]
    change ¬ (65 ≤ c.toNat ∧ _)
    omega
  exact decide_eq_false hupper

theorem decimalDigit_of_isDigit {c : Char} (h : c.isDigit = true) :
    decimalDigit c = some (c.toNat - 48) := by
  have hrange := digit_range h
  have hzero : decimalZeros.find? (fun zero => zero ≤ c.toNat ∧ c.toNat < zero + 10) = some 48 := by
    rw [decimalZeros, List.find?_cons_of_pos]
    rw [decide_eq_true_eq]
    omega
  rw [decimalDigit, hzero, Option.map_some]

theorem isDecimal_of_isDigit {c : Char} (h : c.isDigit = true) : isDecimal c = true := by
  rw [isDecimal, decimalDigit_of_isDigit h, Option.isSome_some]

theorem isSpace_of_isDigit {c : Char} (h : c.isDigit = true) : isSpace c = false := by
  have hrange := digit_range h
  simp only [isSpace, isBlank, decide_eq_false_iff_not, decide_eq_true_eq, List.mem_cons,
    List.not_mem_nil, or_false]
  omega

theorem takeWhile_digits {digits rest : List Char} (hdigits : ∀ c ∈ digits, c.isDigit = true)
    (hrest : ∀ c ∈ rest.head?, isDecimal c = false) :
    (digits ++ rest).takeWhile isDecimal = digits := by
  rw [List.takeWhile_append_of_pos (fun c hc => isDecimal_of_isDigit (hdigits c hc))]
  cases rest with
  | nil => simp
  | cons c rest =>
    have hc : ¬ isDecimal c = true := by simp [hrest c rfl]
    simp [List.takeWhile_cons_of_neg hc]

theorem unsigned_digits {digits : List Char} (hne : digits ≠ [])
    (hdigits : ∀ c ∈ digits, c.isDigit = true) (rest : List Char) :
    unsigned (digits ++ rest) = digits ++ rest := by
  cases digits with
  | nil => exact absurd rfl hne
  | cons c digits =>
    have hdigit := hdigits c List.mem_cons_self
    have hplus : c ≠ '+' := ne_of_isDigit hdigit (by decide)
    have hminus : c ≠ '-' := ne_of_isDigit hdigit (by decide)
    simp [unsigned, hplus, hminus]

theorem intOfDigits_short {digits : List Char} (h : digits.length ≤ maxStrDigits)
    (text : List Char) : intOfDigits text digits = .ok (signedValue text digits) :=
  if_pos h

namespace Numeral
variable (n : Numeral)

theorem signedValue_text (rest : List Char) :
    signedValue (n.text ++ rest) n.digits = n.value := by
  rw [signedValue, text, value]
  cases hsign : n.sign with
  | bare =>
    have hhead : (n.digits ++ rest).head? ≠ some '-' := by
      rw [List.head?_append_of_ne_nil _ n.digits_ne]
      intro hminus
      exact absurd (n.digits_all _ (List.mem_of_mem_head? hminus)) (by decide)
    rw [Sign.text, List.nil_append, if_neg hhead]
    rfl
  | plus => rfl
  | minus => rfl

theorem unsigned_text (rest : List Char) : unsigned (n.text ++ rest) = n.digits ++ rest := by
  rw [text]
  cases n.sign with
  | bare => exact unsigned_digits n.digits_ne n.digits_all rest
  | plus => rfl
  | minus => rfl

/-- The number is read from its text, whatever follows that is no digit. -/
theorem signedInt_text (hshort : n.Short) {rest : List Char}
    (hrest : ∀ c ∈ rest.head?, isDecimal c = false) :
    signedInt (n.text ++ rest) = .ok (some n.value) := by
  have hdigits : leadingDigits (n.text ++ rest) = n.digits := by
    rw [leadingDigits, n.unsigned_text, takeWhile_digits n.digits_all hrest]
  rw [signedInt, hdigits, if_neg n.digits_ne, intOfDigits_short hshort, n.signedValue_text]
  rfl

theorem not_space_of_head {c : Char} (rest : List Char) (h : (n.text ++ rest).head? = some c) :
    isSpace c = false := by
  rw [text] at h
  cases hsign : n.sign with
  | bare =>
    rw [hsign, Sign.text, List.nil_append, List.head?_append_of_ne_nil _ n.digits_ne] at h
    exact isSpace_of_isDigit (n.digits_all c (List.mem_of_mem_head? h))
  | plus =>
    rw [hsign] at h
    obtain rfl := Option.some.inj h
    decide
  | minus =>
    rw [hsign] at h
    obtain rfl := Option.some.inj h
    decide

theorem firstInt_text (hshort : n.Short) {rest : List Char}
    (hrest : ∀ c ∈ rest.head?, isDecimal c = false) :
    firstInt (String.ofList (n.text ++ rest)) = .ok (some n.value) := by
  have hkept : (n.text ++ rest).dropWhile isSpace = n.text ++ rest := by
    rw [List.dropWhile_eq_self_iff]
    intro hlen
    have hfirst : (n.text ++ rest).head? = some (n.text ++ rest)[0] := by
      rw [List.head?_eq_getElem?, List.getElem?_eq_getElem hlen]
    simp [n.not_space_of_head rest hfirst]
  rw [firstInt, String.toList_ofList, hkept, n.signedInt_text hshort hrest]

theorem firstInt_self (hshort : n.Short) :
    firstInt (String.ofList n.text) = .ok (some n.value) := by
  have hread : firstInt (String.ofList (n.text ++ [])) = .ok (some n.value) :=
    n.firstInt_text hshort (by simp)
  rwa [List.append_nil] at hread

end Numeral

/-- Digits without underscores are all of a literal. -/
theorem literalDigits_self {digits : List Char} (hne : digits ≠ [])
    (hdigits : ∀ c ∈ digits, c.isDigit = true) : literalDigits digits = some digits := by
  induction digits with
  | nil => exact absurd rfl hne
  | cons c digits ih =>
    have hc := isDecimal_of_isDigit (hdigits c List.mem_cons_self)
    cases digits with
    | nil => simp [literalDigits, hc]
    | cons d digits =>
      have hd : d ≠ '_' := ne_of_isDigit (hdigits d (by simp)) (by decide)
      have hrest := ih (List.cons_ne_nil d digits) (fun e he => hdigits e (List.mem_cons_of_mem c he))
      rw [literalDigits, if_pos hc, hrest]
      · rfl
      · exact hd

/-- `int` of decimal digits. -/
theorem intOf_digits {digits : List Char} (hne : digits ≠ [])
    (hdigits : ∀ c ∈ digits, c.isDigit = true) (hshort : digits.length ≤ maxStrDigits) :
    intOf (String.ofList digits) = .ok (digitsValue digits : ℤ) := by
  have hspace : ∀ c ∈ digits, isSpace c = false :=
    fun c hc => isSpace_of_isDigit (hdigits c hc)
  have hstrip : strip isSpace digits = digits := by
    rw [strip, List.dropWhile_eq_self_iff.mpr, List.rdropWhile_eq_self_iff.mpr]
    · intro hlast
      simp [hspace _ (List.getLast_mem hlast)]
    · intro hlen
      simp [hspace _ (List.getElem_mem hlen)]
  have hunsigned := unsigned_digits hne hdigits []
  rw [List.append_nil] at hunsigned
  have hvalue := Numeral.signedValue_text ⟨.bare, digits, hne, hdigits⟩ []
  simp only [Numeral.text, Numeral.value, Sign.text, List.nil_append, List.append_nil,
    reduceCtorEq, if_false] at hvalue
  simp only [intOf, String.toList_ofList, hstrip, hunsigned, literalDigits_self hne hdigits,
    intOfDigits_short hshort, hvalue]

/-- Values between commas: the first one is read. -/
theorem firstInt_listed {n : Numeral} {ns : List Numeral} {v : List Char} (hshort : n.Short)
    (h : listed ((n :: ns).map Numeral.text) = some v) :
    firstInt (String.ofList v) = .ok (some n.value) := by
  rw [listed, if_neg (by simp), List.map_cons] at h
  obtain rfl := Option.some.inj h
  obtain ⟨tail, hjoined, hcomma⟩ :=
    intercalate_cons_eq_append ',' n.text (ns.map Numeral.text)
  rw [hjoined]
  apply n.firstInt_text hshort
  intro c hc
  rw [hcomma c hc]
  decide

theorem mapDays_cons {c : Char} (h : c.isUpper = false) (rest : List Char) :
    mapDays (c :: rest) = mapDays rest := by
  cases rest with
  | nil => rfl
  | cons d rest => simp [mapDays, h]

theorem mapDays_append {front : List Char} (h : ∀ c ∈ front, c.isUpper = false)
    (rest : List Char) : mapDays (front ++ rest) = mapDays rest := by
  induction front with
  | nil => rfl
  | cons c front ih =>
    rw [List.cons_append, mapDays_cons (h c List.mem_cons_self)]
    exact ih fun d hd => h d (List.mem_cons_of_mem c hd)

theorem mapDays_dayName (w : Weekday) (rest : List Char) :
    mapDays (dayName w ++ rest) = w :: mapDays rest := by
  cases w <;> rfl

theorem Numeral.not_upper (n : Numeral) : ∀ c ∈ n.text, c.isUpper = false := by
  intro c hc
  rcases List.mem_append.mp hc with hsign | hdigit
  · cases hs : n.sign <;> simp [hs, Sign.text] at hsign <;> subst hsign <;> decide
  · exact isUpper_of_isDigit (n.digits_all c hdigit)

theorem mapDays_text (e : ByDay) (rest : List Char) :
    mapDays (e.text ++ rest) = e.day :: mapDays rest := by
  rw [ByDay.text, List.append_assoc, mapDays_append, mapDays_dayName]
  cases e.ordinal with
  | none => simp
  | some n => exact n.not_upper

/-- The weekdays are found behind their ordinals, one for each entry. -/
theorem mapDays_intercalate (byday : List ByDay) :
    mapDays ([','].intercalate (byday.map ByDay.text)) = byday.map ByDay.day := by
  induction byday with
  | nil => rfl
  | cons e byday ih =>
    cases byday with
    | nil =>
      have hread := mapDays_text e []
      rw [List.append_nil] at hread
      rw [List.map_singleton, List.intercalate_singleton, hread]
      rfl
    | cons f byday =>
      rw [List.map_cons, List.map_cons, List.intercalate_cons_cons, List.append_assoc,
        mapDays_text, List.singleton_append, mapDays_cons (by decide), ← List.map_cons, ih]
      rfl

theorem dayMap_dayName (w : Weekday) : dayMap (dayName w) = some w := by
  cases w <;> rfl

/-! ### The parts of a text -/

namespace RulePart

theorem name_injective : Function.Injective name := by
  intro p q h
  cases p <;> cases q <;> first | rfl | exact absurd h (by decide)

theorem name_plain (p : RulePart) : '=' ∉ p.name.toList ∧ ';' ∉ p.name.toList := by
  cases p <;> decide

theorem name_head (p : RulePart) : p.name.toList.head? ≠ some 'R' := by
  cases p <;> decide

end RulePart

theorem notMem_numeral (n : Numeral) : ';' ∉ n.text := by
  intro h
  rcases List.mem_append.mp h with hsign | hdigit
  · cases hs : n.sign <;> simp [hs, Sign.text] at hsign
  · exact absurd (n.digits_all _ hdigit) (by decide)

theorem notMem_dayName (w : Weekday) : ';' ∉ dayName w := by
  cases w <;> decide

theorem notMem_listed {texts : List (List Char)} (h : ∀ t ∈ texts, ';' ∉ t) {v : List Char}
    (hv : listed texts = some v) : ';' ∉ v := by
  rw [listed] at hv
  split at hv
  · cases hv
  obtain rfl := Option.some.inj hv
  intro hmem
  rcases of_mem_intercalate hmem with hsep | ⟨t, ht, hin⟩
  · exact absurd hsep (by decide)
  · exact h t ht hin

theorem dateOfDigits_eq_some {y m d : List Char} {x : Date} (h : dateOfDigits y m d = some x) :
    (∀ c ∈ y ++ m ++ d, c.isDigit = true) ∧
      x.year = digitsValue y ∧ x.month = digitsValue m ∧ x.day = digitsValue d := by
  rw [dateOfDigits] at h
  split at h
  · next hall => exact ⟨List.all_eq_true.mp hall, Date.of?_eq_some h⟩
  · cases h

namespace Until
variable (u : Until)

theorem day_digits : ∀ c ∈ u.day, c.isDigit = true := by
  have hall := (dateOfDigits_eq_some u.day_date).1
  have hcut : u.day.take 4 ++ (u.day.drop 4).take 2 ++ u.day.drop 6 = u.day := by
    rw [List.append_assoc, ← List.drop_drop (i := 2) (j := 4), List.take_append_drop,
      List.take_append_drop]
  rwa [hcut] at hall

theorem notMem_text : ';' ∉ u.text := by
  have hday : ';' ∉ u.day := fun h => absurd (u.day_digits _ h) (by decide)
  rw [text]
  cases htime : u.time with
  | none => exact hday
  | some digits =>
    have hdigits : ';' ∉ digits := by
      intro h
      exact absurd ((u.time_digits digits htime).2 _ h) (by decide)
    cases u.utc <;> simp [hday, hdigits]

end Until

namespace RRule
variable (r : RRule)

/-- No value has the mark between the parts. -/
theorem notMem_value {p : RulePart} {v : List Char} (h : r.value p = some v) : ';' ∉ v := by
  have hnumeral : ∀ n : Option Numeral, n.map Numeral.text = some v → ';' ∉ v := by
    intro n hn
    obtain ⟨m, -, rfl⟩ := Option.map_eq_some_iff.mp hn
    exact notMem_numeral m
  have hnumerals : ∀ ns : List Numeral, ∀ t ∈ ns.map Numeral.text, ';' ∉ t := by
    intro ns
    exact List.forall_mem_map.mpr fun n _ => notMem_numeral n
  cases p with
  | freq =>
    obtain rfl := Option.some.inj h
    cases r.freq <;> decide
  | interval => exact hnumeral _ h
  | byday =>
    refine notMem_listed (List.forall_mem_map.mpr fun e _ hmem => ?_) h
    rcases List.mem_append.mp hmem with hordinal | hday
    · cases he : e.ordinal with
      | none => simp [he] at hordinal
      | some n =>
        rw [he] at hordinal
        exact notMem_numeral n hordinal
    · exact notMem_dayName _ hday
  | bymonth => exact notMem_listed (hnumerals _) h
  | bymonthday => exact hnumeral _ h
  | bysetpos => exact notMem_listed (hnumerals _) h
  | byweekno => exact notMem_listed (hnumerals _) h
  | wkst =>
    obtain ⟨w, -, rfl⟩ := Option.map_eq_some_iff.mp h
    exact notMem_dayName w
  | count =>
    rw [value] at h
    split at h
    · obtain rfl := Option.some.inj h
      exact notMem_numeral _
    · cases h
  | ends =>
    rw [value] at h
    split at h
    · obtain rfl := Option.some.inj h
      exact Until.notMem_text _
    · cases h

end RRule

namespace Spelling
variable {r : RRule} (s : Spelling r)

/-- The pairs that the text gives. -/
def props : List (String × String) :=
  s.order.filterMap (fun p => (r.value p).map (fun v => (p.name, String.ofList v)))

theorem mem_order {p : RulePart} {v : List Char} (hv : r.value p = some v) : p ∈ s.order :=
  (s.mem_iff p).mpr (Option.isSome_of_eq_some hv)

theorem mem_parts {part : List Char} :
    part ∈ s.parts ↔ ∃ p v, r.value p = some v ∧ part = p.name.toList ++ '=' :: v := by
  rw [parts, List.mem_filterMap]
  constructor
  · rintro ⟨p, -, hp⟩
    obtain ⟨v, hv, rfl⟩ := Option.map_eq_some_iff.mp hp
    exact ⟨p, v, hv, rfl⟩
  · rintro ⟨p, v, hv, rfl⟩
    refine ⟨p, s.mem_order hv, ?_⟩
    rw [hv]
    rfl

theorem parts_ne_nil : s.parts ≠ [] := by
  have hfreq : "FREQ".toList ++ '=' :: r.freq.text.toList ∈ s.parts :=
    s.mem_parts.mpr ⟨.freq, _, rfl, rfl⟩
  exact List.ne_nil_of_mem hfreq

theorem splitOn_parts : ([';'].intercalate s.parts).splitOn ';' = s.parts := by
  apply List.splitOn_intercalate _ _ s.parts_ne_nil
  intro part hpart
  obtain ⟨p, v, hv, rfl⟩ := s.mem_parts.mp hpart
  have hname := p.name_plain.2
  have hvalue := r.notMem_value hv
  simp [hname, hvalue]

/-- What stands before the parts is cut off. -/
theorem parse_body :
    (if "RRULE:".toList <+: s.text.toList then s.text.toList.drop 6 else s.text.toList) =
      [';'].intercalate s.parts := by
  have htext : s.text.toList = (if s.named then "RRULE:".toList else []) ++
      [';'].intercalate s.parts := String.toList_ofList
  rw [htext]
  cases s.named with
  | true =>
    rw [if_pos rfl, if_pos (List.prefix_append _ _)]
    rfl
  | false =>
    rw [if_neg Bool.false_ne_true, List.nil_append, if_neg]
    intro hstart
    -- no part has a name that begins as the property's does
    have hhead : ([';'].intercalate s.parts).head? = some 'R' := by
      obtain ⟨rest, hrest⟩ := hstart
      rw [← hrest]
      rfl
    cases hparts : s.parts with
    | nil => exact s.parts_ne_nil hparts
    | cons part rest =>
      obtain ⟨p, v, -, rfl⟩ := s.mem_parts.mp (hparts ▸ List.mem_cons_self)
      have hname : p.name.toList ≠ [] := by cases p <;> decide
      obtain ⟨tail, hjoined, -⟩ :=
        intercalate_cons_eq_append ';' (p.name.toList ++ '=' :: v) rest
      have hfirst : ([';'].intercalate s.parts).head? = p.name.toList.head? := by
        rw [hparts, hjoined, List.append_assoc, List.head?_append_of_ne_nil _ hname]
      exact p.name_head (hfirst.symm.trans hhead)

theorem parseRrule_text : parseRrule s.text = s.props := by
  have hpart : ∀ p : RulePart, ∀ v : List Char,
      (p.name.toList ++ '=' :: v).takeWhile (· ≠ '=') = p.name.toList ∧
        (p.name.toList ++ '=' :: v).dropWhile (· ≠ '=') = '=' :: v := by
    intro p v
    have hname : ∀ c ∈ p.name.toList, decide (c ≠ '=') = true := by
      intro c hc
      rw [decide_eq_true_iff]
      rintro rfl
      exact p.name_plain.1 hc
    rw [List.takeWhile_append_of_pos hname, List.dropWhile_append_of_pos hname]
    simp
  rw [parseRrule, s.parse_body, s.splitOn_parts, parts, props, List.filterMap_filterMap]
  apply List.filterMap_congr
  intro p _
  cases r.value p with
  | none => rfl
  | some v =>
    obtain ⟨htake, hdrop⟩ := hpart p v
    simp only [Option.map_some, Option.bind_some, htake, hdrop, List.tail_cons,
      String.ofList_toList]
    rw [if_pos (by simp)]

/-- A part is looked up under its name. -/
theorem getProp_props (p : RulePart) : getProp s.props p.name = (r.value p).map String.ofList := by
  -- whichever pair with this name comes last, it has the value of the part
  have hpair : ∀ pair ∈ s.props, pair.1 = p.name → (r.value p).map String.ofList = some pair.2 := by
    intro pair hmem hname
    obtain ⟨q, -, hq⟩ := List.mem_filterMap.mp hmem
    obtain ⟨v, hv, rfl⟩ := Option.map_eq_some_iff.mp hq
    obtain rfl := RulePart.name_injective hname
    rw [hv]
    rfl
  rw [getProp]
  cases hfind : s.props.reverse.find? (fun pair => decide (pair.1 = p.name)) with
  | some pair =>
    have hname := List.find?_some hfind
    have hmem := List.mem_of_find?_eq_some hfind
    rw [List.mem_reverse] at hmem
    exact (hpair pair hmem (of_decide_eq_true hname)).symm
  | none =>
    cases hv : r.value p with
    | none => rfl
    | some v =>
      have hmem : (p.name, String.ofList v) ∈ s.props := by
        refine List.mem_filterMap.mpr ⟨p, s.mem_order hv, ?_⟩
        rw [hv]
        rfl
      have hnot := List.find?_eq_none.mp hfind _ (List.mem_reverse.mpr hmem)
      exact absurd (decide_eq_true rfl) hnot

end Spelling

end GwsMigrator
