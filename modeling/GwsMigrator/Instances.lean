import Mathlib.Algebra.Order.Group.Int
import Mathlib.Data.List.Nodup
import Mathlib.Tactic.Linarith

/-! `microsoft/calendar.py: find_instance`, on a series whose occurrences have been moved and
deleted. -/
namespace GwsMigrator

/-- A day in microseconds. -/
def dayMicros : ℤ := 86400 * 1000000

/-- A text as `datetime.fromisoformat` takes it apart, with days counted and times in
microseconds. Only a bare date has ten characters. -/
inductive IsoText where
  | date (day : ℤ)
  | dateTime (day : ℤ) (time : ℕ) (offset : Option ℤ)
  | malformed
deriving DecidableEq

/-- `_to_utc`. A text without an offset is in UTC. -/
def toUtc : IsoText → Option ℤ
  | .date day => some (day * dayMicros)
  | .dateTime day time offset => some (day * dayMicros + time - offset.getD 0)
  | .malformed => none

/-- `text[:10]`, where that is a date. -/
def datePart : IsoText → Option ℤ
  | .date day => some day
  | .dateTime day _ _ => some day
  | .malformed => none

/-- An instance of a series as Graph returns it. -/
structure GraphInstance where
  id : String
  start : Option IsoText
  originalStart : Option IsoText

/-- `_instance_matches`. -/
def instanceMatches (inst : GraphInstance) (originalStart : IsoText) : Bool :=
  match originalStart with
  | .date day => inst.start.bind datePart = some day
  | _ =>
    match toUtc originalStart with
    | none => false
    | some target =>
      [inst.originalStart, inst.start].any (fun candidate => candidate.bind toUtc = some target)

/-- `strftime("%Y-%m-%dT%H:%M:%SZ")`, which drops the fraction of a second. -/
def wholeSeconds (t : ℤ) : ℤ := t / 1000000 * 1000000

/-- The window that `find_instance` asks for. -/
def instanceWindow (originalStart : IsoText) : Option (ℤ × ℤ) :=
  match originalStart with
  | .date day => some (day * dayMicros, day * dayMicros + 86399 * 1000000)
  | _ => (toUtc originalStart).map
      (fun target => (wholeSeconds (target - dayMicros), wholeSeconds (target + dayMicros)))

/-- `find_instance`, with the call for the instances of a window. -/
def findInstance (instances : ℤ → ℤ → List GraphInstance) (originalStart : IsoText) :
    Option String :=
  (instanceWindow originalStart).bind (fun window =>
    ((instances window.1 window.2).find? (fun inst => instanceMatches inst originalStart)).map
      GraphInstance.id)

/-- An occurrence of a series at the destination, with its starts in UTC. -/
structure Occurrence where
  id : String
  original : ℤ
  current : ℤ
  live : Bool
deriving DecidableEq

/-- An exception applied to an occurrence. -/
inductive Edit where
  | move (id : String) (start : ℤ)
  | delete (id : String)

def Occurrence.edit (e : Edit) (o : Occurrence) : Occurrence :=
  match e with
  | .move id start => if o.id = id then { o with current := start } else o
  | .delete id => if o.id = id then { o with live := false } else o

@[simp] theorem Occurrence.edit_id (e : Edit) (o : Occurrence) : (o.edit e).id = o.id := by
  cases e <;> rw [Occurrence.edit] <;> split <;> rfl

@[simp] theorem Occurrence.edit_original (e : Edit) (o : Occurrence) :
    (o.edit e).original = o.original := by
  cases e <;> rw [Occurrence.edit] <;> split <;> rfl

/-- A series. All-day occurrences were created at midnights. -/
structure Series where
  occurrences : List Occurrence
  allDay : Bool
  ids_nodup : (occurrences.map Occurrence.id).Nodup
  originals_nodup : (occurrences.map Occurrence.original).Nodup
  midnights : allDay = true → ∀ o ∈ occurrences, dayMicros ∣ o.original

def Series.edit (s : Series) (e : Edit) : Series where
  occurrences := s.occurrences.map (Occurrence.edit e)
  allDay := s.allDay
  ids_nodup := by
    simpa [Function.comp_def] using s.ids_nodup
  originals_nodup := by
    simpa [Function.comp_def] using s.originals_nodup
  midnights h o ho := by
    obtain ⟨o', ho', rfl⟩ := List.mem_map.mp ho
    rw [Occurrence.edit_original]
    exact s.midnights h o' ho'

/-- A series after a history of exceptions. -/
def Series.replay (s : Series) (history : List Edit) : Series := history.foldl Series.edit s

/-- Graph's answers for a series: the live occurrences that start in the window, in any order, and
at least the moved ones with their original starts. -/
structure Listing (s : Series) where
  answer : ℤ → ℤ → List Occurrence
  shown : Occurrence → Bool
  perm : ∀ a b, (answer a b).Perm
    (s.occurrences.filter (fun o => o.live ∧ a ≤ o.current ∧ o.current ≤ b))
  shown_moved : ∀ o, o.current ≠ o.original → shown o = true

/-- An instant in UTC, as Graph writes it. -/
def utcText (t : ℤ) (offset : Option ℤ) : IsoText :=
  .dateTime (t / dayMicros) (t % dayMicros).toNat offset

/-- An occurrence as Graph returns it: its start without an offset, its original start with a Z. -/
def Occurrence.asInstance (shown : Bool) (o : Occurrence) : GraphInstance where
  id := o.id
  start := some (utcText o.current none)
  originalStart := if shown then some (utcText o.original (some 0)) else none

/-- An originalStartTime of the source. -/
inductive OriginalStart where
  | timed (day : ℤ) (time : ℕ) (offset : ℤ)
  | allDay (day : ℤ)

namespace OriginalStart

def text : OriginalStart → IsoText
  | timed day time offset => .dateTime day time (some offset)
  | allDay day => .date day

def instant : OriginalStart → ℤ
  | timed day time offset => day * dayMicros + time - offset
  | allDay day => day * dayMicros

def isAllDay : OriginalStart → Bool
  | timed .. => false
  | allDay _ => true

/-- An occurrence that starts then as things stand, on that date if all-day. -/
def Taken (start : OriginalStart) (o : Occurrence) : Prop :=
  match start with
  | timed .. => o.current = start.instant
  | allDay day => o.current / dayMicros = day

end OriginalStart

/-- A search for the occurrence of a series that started at a given time. -/
structure InstanceQuery where
  series : Series
  history : List Edit
  listing : Listing (series.replay history)
  start : OriginalStart
  kind : start.isAllDay = series.allDay

namespace InstanceQuery
variable (q : InstanceQuery)

def state : Series := q.series.replay q.history

def found : Option String :=
  findInstance (fun a b => (q.listing.answer a b).map
    (fun o => o.asInstance (q.listing.shown o))) q.start.text

/-- The live occurrence that started at the given time. -/
def expected : Option String :=
  (q.state.occurrences.find? (fun o => o.live ∧ o.original = q.start.instant)).map Occurrence.id

def window : ℤ × ℤ := (instanceWindow q.start.text).getD (0, 0)

def listed : List Occurrence := q.listing.answer q.window.1 q.window.2

/-- The occurrence, if it is live, still starts in the window, and no other that starts at the
time as things stand comes before it in the answer. -/
structure Undisturbed : Prop where
  inWindow : ∀ o ∈ q.state.occurrences, o.live = true → o.original = q.start.instant →
    q.window.1 ≤ o.current ∧ o.current ≤ q.window.2
  first : ∀ before o after, q.listed = before ++ o :: after → q.start.Taken o →
    o.original ≠ q.start.instant → ∃ o' ∈ before, o'.original = q.start.instant

end InstanceQuery

/-- The first of a list that a test takes is right, if it takes all that are, exactly when no
wrong one that it takes stands before all of them. -/
theorem find?_right_iff {α : Type*} {test : α → Bool} {right : α → Prop} {l : List α}
    (htest : ∀ a ∈ l, right a → test a = true) :
    (∀ a, l.find? test = some a → right a) ↔
      ∀ before a after, l = before ++ a :: after → test a = true → ¬ right a →
        ∃ b ∈ before, right b := by
  constructor
  · rintro h before a after rfl ha hwrong
    have hsome : ((before ++ [a]).find? test).isSome = true := by
      rw [List.find?_isSome]
      exact ⟨a, by simp, ha⟩
    obtain ⟨b, hb⟩ := Option.isSome_iff_exists.mp hsome
    have hright : right b := by
      apply h b
      rw [List.append_cons, List.find?_append, hb, Option.some_or]
    rcases List.mem_append.mp (List.mem_of_find?_eq_some hb) with hmem | hmem
    · exact ⟨b, hmem, hright⟩
    · exact absurd (List.mem_singleton.mp hmem ▸ hright) hwrong
  · intro h a hfind
    obtain ⟨ha, before, after, rfl, hbefore⟩ := List.find?_eq_some_iff_append.mp hfind
    by_contra hwrong
    obtain ⟨b, hb, hright⟩ := h before a after rfl ha hwrong
    have htaken := htest b (List.mem_append_left _ hb) hright
    have hnot := hbefore b hb
    rw [htaken] at hnot
    cases hnot

theorem toUtc_utcText (t : ℤ) {offset : Option ℤ} (h : offset.getD 0 = 0) :
    toUtc (utcText t offset) = some t := by
  have hpos : (0 : ℤ) < dayMicros := by decide
  have htime : ((t % dayMicros).toNat : ℤ) = t % dayMicros :=
    Int.toNat_of_nonneg (Int.emod_nonneg t hpos.ne')
  have hsplit : t / dayMicros * dayMicros + t % dayMicros = t := Int.ediv_mul_add_emod t dayMicros
  rw [utcText, toUtc, h, htime, hsplit, sub_zero]

namespace InstanceQuery
variable (q : InstanceQuery)

theorem window_eq : instanceWindow q.start.text = some q.window := by
  rw [window]
  cases hstart : q.start <;> rfl

theorem mem_listed {o : Occurrence} :
    o ∈ q.listed ↔ (o ∈ q.state.occurrences ∧ o.live = true) ∧
      q.window.1 ≤ o.current ∧ o.current ≤ q.window.2 := by
  rw [listed, (q.listing.perm _ _).mem_iff, List.mem_filter, decide_eq_true_eq, ← and_assoc]
  rfl

/-- What is listed starts on the given date, if that is all-day. -/
theorem day_of_listed {o : Occurrence} (ho : o ∈ q.listed) {day : ℤ}
    (hstart : q.start = .allDay day) : o.current / dayMicros = day := by
  obtain ⟨-, hlow, hhigh⟩ := q.mem_listed.mp ho
  have hwindow : q.window = (day * dayMicros, day * dayMicros + 86399 * 1000000) := by
    rw [window, hstart]
    rfl
  rw [hwindow] at hlow hhigh
  simp only [dayMicros] at hlow hhigh ⊢
  omega

/-- An instance matches if it started at the given time, or if it starts then now. -/
theorem matches_iff {o : Occurrence} (ho : o ∈ q.listed) :
    instanceMatches (o.asInstance (q.listing.shown o)) q.start.text = true ↔
      o.original = q.start.instant ∨ q.start.Taken o := by
  have hcurrent : toUtc (utcText o.current none) = some o.current := toUtc_utcText _ rfl
  have horiginal : toUtc (utcText o.original (some 0)) = some o.original := toUtc_utcText _ rfl
  cases hstart : q.start with
  | timed day time offset =>
    have hany : ∀ inst : GraphInstance,
        instanceMatches inst (OriginalStart.timed day time offset).text =
          [inst.originalStart, inst.start].any (fun candidate =>
            candidate.bind toUtc = some (OriginalStart.timed day time offset).instant) :=
      fun _ => rfl
    rw [hany]
    by_cases hshown : q.listing.shown o = true
    · simp [Occurrence.asInstance, hshown, hcurrent, horiginal, OriginalStart.Taken]
    · -- an occurrence without an original start has not been moved
      have hunmoved : o.current = o.original := by
        by_contra hmoved
        exact hshown (q.listing.shown_moved o hmoved)
      rw [hunmoved] at hcurrent
      simp [Occurrence.asInstance, hshown, hcurrent, hunmoved, OriginalStart.Taken]
  | allDay day =>
    have hday := q.day_of_listed ho hstart
    simp [instanceMatches, OriginalStart.text, OriginalStart.Taken, Occurrence.asInstance, utcText,
      datePart, hday]

theorem found_eq :
    q.found = (q.listed.find? (fun o =>
      instanceMatches (o.asInstance (q.listing.shown o)) q.start.text)).map Occurrence.id := by
  rw [found, findInstance, q.window_eq, Option.bind_some, List.find?_map, Option.map_map]
  rfl

/-- No two occurrences started at the same time. -/
theorem original_inj {o o' : Occurrence} (ho : o ∈ q.state.occurrences)
    (ho' : o' ∈ q.state.occurrences) (h : o.original = o'.original) : o = o' :=
  List.inj_on_of_nodup_map q.state.originals_nodup ho ho' h

theorem id_inj {o o' : Occurrence} (ho : o ∈ q.state.occurrences)
    (ho' : o' ∈ q.state.occurrences) (h : o.id = o'.id) : o = o' :=
  List.inj_on_of_nodup_map q.state.ids_nodup ho ho' h

theorem expected_eq_some {o : Occurrence} (ho : o ∈ q.state.occurrences) (hlive : o.live = true)
    (horiginal : o.original = q.start.instant) : q.expected = some o.id := by
  rw [expected]
  cases hfind : q.state.occurrences.find?
      (fun o => o.live ∧ o.original = q.start.instant) with
  | none =>
    have hnot := List.find?_eq_none.mp hfind o ho
    exact absurd (by simp [hlive, horiginal]) hnot
  | some o' =>
    have hmem := List.mem_of_find?_eq_some hfind
    have hkey := List.find?_some hfind
    rw [decide_eq_true_eq] at hkey
    rw [q.original_inj hmem ho (hkey.2.trans horiginal.symm)]
    rfl

theorem expected_spec {id : String} (h : q.expected = some id) :
    ∃ o ∈ q.state.occurrences, o.original = q.start.instant ∧ o.id = id := by
  obtain ⟨o, hfind, hid⟩ := Option.map_eq_some_iff.mp h
  have hkey := List.find?_some hfind
  rw [decide_eq_true_eq] at hkey
  exact ⟨o, List.mem_of_find?_eq_some hfind, hkey.2, hid⟩

/-- The first match is right, if there is one, exactly when no other one comes before it. -/
theorem first_match_iff :
    (∀ o, q.listed.find? (fun o =>
        instanceMatches (o.asInstance (q.listing.shown o)) q.start.text) = some o →
      o.original = q.start.instant) ↔
    ∀ before o after, q.listed = before ++ o :: after → q.start.Taken o →
      o.original ≠ q.start.instant → ∃ o' ∈ before, o'.original = q.start.instant := by
  rw [find?_right_iff (fun o ho horiginal => (q.matches_iff ho).mpr (Or.inl horiginal))]
  refine forall₄_congr (fun before o after hlisted => ?_)
  have ho : o ∈ q.listed := by
    rw [hlisted]
    simp
  constructor
  · exact fun h htaken hother => h ((q.matches_iff ho).mpr (Or.inr htaken)) hother
  · exact fun h hmatch hother => h (((q.matches_iff ho).mp hmatch).resolve_left hother) hother

/-- The search finds the live occurrence that started at the given time, and none if there is
none, exactly when it is undisturbed. -/
theorem found_expected_iff : q.found = q.expected ↔ q.Undisturbed := by
  rw [q.found_eq]
  constructor
  · intro h
    refine ⟨fun o ho hlive horiginal => ?_, q.first_match_iff.mp (fun o hfind => ?_)⟩
    · rw [q.expected_eq_some ho hlive horiginal] at h
      obtain ⟨o', hfind, hid⟩ := Option.map_eq_some_iff.mp h
      obtain ⟨⟨hstate, -⟩, hwindow⟩ := q.mem_listed.mp (List.mem_of_find?_eq_some hfind)
      rw [← q.id_inj hstate ho hid]
      exact hwindow
    · rw [hfind, Option.map_some] at h
      obtain ⟨o', hstate', horiginal, hid⟩ := q.expected_spec h.symm
      obtain ⟨⟨hstate, -⟩, -⟩ := q.mem_listed.mp (List.mem_of_find?_eq_some hfind)
      rw [← q.id_inj hstate' hstate hid]
      exact horiginal
  · rintro ⟨hwindow, hfirst⟩
    cases hfind : q.listed.find? (fun o =>
        instanceMatches (o.asInstance (q.listing.shown o)) q.start.text) with
    | some o =>
      obtain ⟨⟨hstate, hlive⟩, -⟩ := q.mem_listed.mp (List.mem_of_find?_eq_some hfind)
      have horiginal : o.original = q.start.instant := q.first_match_iff.mpr hfirst o hfind
      rw [q.expected_eq_some hstate hlive horiginal]
      rfl
    | none =>
      rw [Option.map_none, expected, eq_comm, Option.map_eq_none_iff, List.find?_eq_none]
      intro o ho hkey
      rw [decide_eq_true_eq] at hkey
      have hlisted : o ∈ q.listed :=
        q.mem_listed.mpr ⟨⟨ho, hkey.1⟩, hwindow o ho hkey.1 hkey.2⟩
      exact List.find?_eq_none.mp hfind o hlisted
        ((q.matches_iff hlisted).mpr (Or.inl hkey.2))

end InstanceQuery

/-- A daily series at four in the afternoon. -/
def dailySeries : Series where
  occurrences :=
    [⟨"a", 10 * dayMicros + 57600000000, 10 * dayMicros + 57600000000, true⟩,
      ⟨"b", 11 * dayMicros + 57600000000, 11 * dayMicros + 57600000000, true⟩]
  allDay := false
  ids_nodup := by decide
  originals_nodup := by decide
  midnights h := by cases h

/-- The first occurrence was moved to an hour later, and the second one to its place. The first
one is looked for, by its start seven hours west of Greenwich. -/
def swappedQuery : InstanceQuery where
  series := dailySeries
  history := [.move "a" (10 * dayMicros + 61200000000), .move "b" (10 * dayMicros + 57600000000)]
  listing :=
    { answer := fun a b => ((dailySeries.replay [.move "a" (10 * dayMicros + 61200000000),
        .move "b" (10 * dayMicros + 57600000000)]).occurrences.filter
          (fun o => o.live ∧ a ≤ o.current ∧ o.current ≤ b)).reverse
      shown := fun o => o.current ≠ o.original
      perm := fun _ _ => List.reverse_perm _
      shown_moved := fun o h => by simpa using h }
  start := .timed 10 32400000000 (-25200000000)
  kind := rfl

/-- The second one is found. -/
theorem swapped_found_wrong : ¬ ∀ q : InstanceQuery, q.found = q.expected := by
  intro h
  exact absurd (h swappedQuery) (by decide)

end GwsMigrator
