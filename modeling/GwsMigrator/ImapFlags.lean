import GwsMigrator.ImapList

/-! The flags in the data of a FETCH. A server may send those of any message of the folder along
with the answer, and `_fetch_message` takes them all for those of the message it asked for. Lines
are in ASCII, so that decoding changes nothing. -/
namespace GwsMigrator
open Separators TextEdits

def flagsOpen : List Char := "FLAGS (".toList

/-- The `FLAGS \((?P<flags>[^\)]*)\)` of `imaplib.Flags`, at the start of a text. -/
def flagsHere (text : List Char) : Option (List Char) :=
  if flagsOpen <+: text then
    let rest := text.drop flagsOpen.length
    let flags := rest.takeWhile (· ≠ ')')
    -- the list has to be closed
    if flags.length < rest.length then some flags else none
  else none

/-- Its `.*` before: the last place in the first line of a text where that matches. -/
def flagsGroup : List Char → Option (List Char)
  | [] => none
  | c :: rest => (if c = '\n' then none else flagsGroup rest).or (flagsHere (c :: rest))

/-- `bytes.split()`, for a text in ASCII. -/
def splitBlanks (text : List Char) : List (List Char) :=
  (text.splitOnP (· ∈ [' ', '\t', '\n', '\r', '\x0b', '\x0c'])).filter (· ≠ [])

/-- `imaplib.ParseFlags`, with the flags decoded. -/
def parseFlags (line : String) : List String :=
  match flagsGroup line.toList with
  | some flags => (splitBlanks flags).map String.ofList
  | none => []

/-- An element of the data of a FETCH: a line, alone or with the literal that it announces. -/
structure FetchData where
  line : String
  literal : Option Bytes

def FetchData.part (d : FetchData) : FetchPart := ⟨parseFlags d.line, d.literal⟩

/-- A flag as a server sends it: a keyword, or a backslash and an atom. -/
structure ImapFlag where
  slashed : Bool
  atom : String
  atom_ne : atom ≠ ""
  atom_chars : ∀ c ∈ atom.toList, isAtomChar c = true ∧ 32 < c.toNat ∧ c.toNat < 127
deriving DecidableEq

namespace ImapFlag

def text (f : ImapFlag) : List Char := if f.slashed then '\\' :: f.atom.toList else f.atom.toList

theorem atom_chars_of_all {atom : String}
    (h : atom.toList.all (fun c => isAtomChar c = true ∧ 32 < c.toNat ∧ c.toNat < 127) = true) :
    ∀ c ∈ atom.toList, isAtomChar c = true ∧ 32 < c.toNat ∧ c.toNat < 127 :=
  fun c hc => of_decide_eq_true (List.all_eq_true.mp h c hc)

def seen : ImapFlag := ⟨true, "Seen", by decide, atom_chars_of_all (by decide)⟩

def flagged : ImapFlag := ⟨true, "Flagged", by decide, atom_chars_of_all (by decide)⟩

end ImapFlag

/-- An item of a FETCH answer, besides the literal. -/
inductive FetchItem where
  | uid (n : ℕ)
  | flags (fs : List ImapFlag)

namespace FetchItem

def text : FetchItem → List Char
  | .uid n => "UID ".toList ++ (toString n).toList
  | .flags fs => flagsOpen ++ ([' '].intercalate (fs.map ImapFlag.text) ++ [')'])

def flags? : FetchItem → Option (List ImapFlag)
  | .uid _ => none
  | .flags fs => some fs

end FetchItem

/-- The answer for the message that was asked for. Its literal stands between the other items, one
of which has the flags. -/
structure FetchedMessage where
  seq : ℕ
  front : List FetchItem
  literal : Bytes
  behind : List FetchItem
  flags : List ImapFlag
  one_flags : (front ++ behind).filterMap FetchItem.flags? = [flags]

/-- What imaplib makes of it. -/
def FetchedMessage.data (m : FetchedMessage) : List FetchData :=
  [⟨String.ofList ((toString m.seq).toList ++ (" (".toList ++ (m.front.flatMap (·.text ++ [' ']) ++
      ("RFC822 \x7b".toList ++ (toString m.literal.length).toList ++ ['}'])))), some m.literal⟩,
    ⟨String.ofList (m.behind.flatMap (' ' :: ·.text) ++ [')']), none⟩]

/-- An answer that nobody asked for, with the flags of another message. -/
structure FlagUpdate where
  seq : ℕ
  uid : Option ℕ
  flags : List ImapFlag

def FlagUpdate.data (u : FlagUpdate) : FetchData :=
  let items := (u.uid.map FetchItem.uid).toList.flatMap (·.text ++ [' '])
  ⟨String.ofList ((toString u.seq).toList ++ (" (".toList ++ (items ++
    ((FetchItem.flags u.flags).text ++ [')'])))), none⟩

/-- The data of a FETCH with updates before and after the answer. -/
def fetchData (m : FetchedMessage) (before after : List FlagUpdate) : List FetchData :=
  before.map FlagUpdate.data ++ (m.data ++ after.map FlagUpdate.data)

section groups

theorem flagsGroup_eq_none {text : List Char} (h : '(' ∉ text) : flagsGroup text = none := by
  induction text with
  | nil => rfl
  | cons c rest ih =>
    have hrest : flagsGroup rest = none := ih (fun hmem => h (List.mem_cons_of_mem c hmem))
    have hhere : flagsHere (c :: rest) = none := by
      apply if_neg
      intro hopen
      exact h (hopen.subset (by decide))
    rw [flagsGroup, hrest, hhere, ite_self]
    rfl

/-- Nothing behind a closed list can open another one. -/
theorem flagsOpen_chars : flagsOpen = ['F', 'L', 'A', 'G', 'S', ' ', '('] := by decide

theorem flagsGroup_list (flags rest : List Char) (hclose : ')' ∉ flags)
    (hopen : '(' ∉ flags ++ ')' :: rest) :
    flagsGroup (flagsOpen ++ (flags ++ ')' :: rest)) = some flags := by
  have hflags : (flags ++ ')' :: rest).takeWhile (· ≠ ')') = flags := by
    rw [List.takeWhile_append_of_pos]
    · simp
    · intro c hc
      exact decide_eq_true (fun h => hclose (h ▸ hc))
  have hhere : flagsHere (flagsOpen ++ (flags ++ ')' :: rest)) = some flags := by
    rw [flagsHere, if_pos (List.prefix_append _ _)]
    simp only [List.drop_left, hflags]
    rw [if_pos]
    rw [List.length_append, List.length_cons]
    omega
  have hnone := flagsGroup_eq_none hopen
  -- the list cannot be found at one of the letters of its own opening
  have hletters : flagsGroup ("LAGS (".toList ++ (flags ++ ')' :: rest)) = none := by
    simp [flagsGroup, flagsHere, flagsOpen_chars, hnone]
  change flagsGroup ('F' :: ("LAGS (".toList ++ (flags ++ ')' :: rest))) = some flags
  rw [flagsGroup, hletters, if_neg (by decide)]
  exact hhere

theorem flagsGroup_append {front rest flags : List Char} (hline : '\n' ∉ front)
    (h : flagsGroup rest = some flags) : flagsGroup (front ++ rest) = some flags := by
  induction front with
  | nil => exact h
  | cons c front ih =>
    rw [List.mem_cons, not_or] at hline
    obtain ⟨hc, hfront⟩ := hline
    rw [List.cons_append, flagsGroup, if_neg (Ne.symm hc), ih hfront]
    rfl

theorem flagsGroup_append_eq_none {front rest : List Char} (hletter : 'F' ∉ front)
    (h : flagsGroup rest = none) : flagsGroup (front ++ rest) = none := by
  induction front with
  | nil => exact h
  | cons c front ih =>
    rw [List.mem_cons, not_or] at hletter
    obtain ⟨hc, hfront⟩ := hletter
    have hhere : flagsHere (c :: (front ++ rest)) = none := by
      apply if_neg
      intro hopen
      exact hc (List.cons_prefix_cons.mp hopen).1
    rw [List.cons_append, flagsGroup, ih hfront, hhere, ite_self]
    rfl

/-- Words joined by single blanks are split again. -/
theorem splitBlanks_intercalate {words : List (List Char)} (hne : ∀ word ∈ words, word ≠ [])
    (hword : ∀ word ∈ words, ∀ c ∈ word, 32 < c.toNat) :
    splitBlanks ([' '].intercalate words) = words := by
  have hplain : ∀ word ∈ words, ∀ c ∈ word,
      decide (c ∈ [' ', '\t', '\n', '\r', '\x0b', '\x0c']) = false := by
    intro word hmem c hc
    have hlarge := hword word hmem c hc
    rw [decide_eq_false_iff_not]
    intro hblank
    revert hlarge
    simp only [List.mem_cons, List.not_mem_nil, or_false] at hblank
    rcases hblank with rfl | rfl | rfl | rfl | rfl | rfl <;> decide
  induction words with
  | nil => decide
  | cons first rest ih =>
    have hfirst : first ≠ [] := hne first List.mem_cons_self
    have hplain₁ := hplain first List.mem_cons_self
    cases rest with
    | nil =>
      rw [List.intercalate_singleton, splitBlanks, List.splitOnP_eq_singleton hplain₁]
      simp [hfirst]
    | cons second rest =>
      have hrest := ih (fun word h => hne word (List.mem_cons_of_mem _ h))
        (fun word h => hword word (List.mem_cons_of_mem _ h))
        (fun word h => hplain word (List.mem_cons_of_mem _ h))
      rw [List.intercalate_cons_cons, List.append_assoc, List.singleton_append, splitBlanks,
        List.splitOnP_append_cons_of_forall_mem hplain₁ ' ' (by decide)]
      rw [splitBlanks] at hrest
      rw [List.filter_cons_of_pos (by simpa using hfirst), hrest]

end groups

section lines

theorem digit_of_mem {n : ℕ} {c : Char} (h : c ∈ (toString n).toList) : c.isDigit = true := by
  rw [Nat.toString_eq_repr, Nat.toList_repr] at h
  exact Nat.isDigit_of_mem_toDigits (by decide) (by decide) h

theorem ImapFlag.text_ne_nil (f : ImapFlag) : f.text ≠ [] := by
  have hatom : f.atom.toList ≠ [] := fun h => f.atom_ne (String.toList_eq_nil_iff.mp h)
  unfold text
  split
  · exact List.cons_ne_nil _ _
  · exact hatom

/-- The characters of a flag: none is a blank, and none a parenthesis. -/
theorem ImapFlag.char_of_mem (f : ImapFlag) {c : Char} (h : c ∈ f.text) :
    32 < c.toNat ∧ c ≠ '(' ∧ c ≠ ')' := by
  have hatom : ∀ d ∈ f.atom.toList, 32 < d.toNat ∧ d ≠ '(' ∧ d ≠ ')' := by
    intro d hd
    obtain ⟨hchar, hlow, -⟩ := f.atom_chars d hd
    simp only [isAtomChar, decide_eq_true_eq] at hchar
    refine ⟨hlow, ?_, ?_⟩
    · rintro rfl
      exact hchar (by decide)
    · rintro rfl
      exact hchar (by decide)
  unfold text at h
  split at h
  · rcases List.mem_cons.mp h with rfl | hmem
    · decide
    · exact hatom c hmem
  · exact hatom c h

/-- A list of flags as it stands in a line that has no other. -/
theorem parseFlags_list {front rest : List Char} (fs : List ImapFlag) (hline : '\n' ∉ front)
    (hrest : '(' ∉ rest) :
    parseFlags (String.ofList (front ++ ((FetchItem.flags fs).text ++ rest))) =
      fs.map (fun f => String.ofList f.text) := by
  have hwords : ∀ word ∈ fs.map ImapFlag.text, ∃ f : ImapFlag, f.text = word := by
    intro word hword
    obtain ⟨f, -, hf⟩ := List.mem_map.mp hword
    exact ⟨f, hf⟩
  have hchars : ∀ c ∈ [' '].intercalate (fs.map ImapFlag.text), c ≠ '(' ∧ c ≠ ')' := by
    intro c hc
    rcases of_mem_intercalate hc with hblank | ⟨word, hword, hmem⟩
    · rw [List.mem_singleton.mp hblank]
      decide
    · obtain ⟨f, rfl⟩ := hwords word hword
      exact (f.char_of_mem hmem).2
  have hopen : '(' ∉ [' '].intercalate (fs.map ImapFlag.text) ++ ')' :: rest := by
    rw [List.mem_append, List.mem_cons]
    rintro (h | h | h)
    · exact (hchars _ h).1 rfl
    · exact absurd h (by decide)
    · exact hrest h
  have hgroup := flagsGroup_list _ rest (fun h => (hchars _ h).2 rfl) hopen
  have hfound : flagsGroup (front ++ ((FetchItem.flags fs).text ++ rest)) =
      some ([' '].intercalate (fs.map ImapFlag.text)) := by
    have htext : (FetchItem.flags fs).text ++ rest =
        flagsOpen ++ ([' '].intercalate (fs.map ImapFlag.text) ++ ')' :: rest) := by
      rw [FetchItem.text, List.append_assoc, List.append_assoc, List.singleton_append]
    apply flagsGroup_append hline
    rw [htext]
    exact hgroup
  have hsplit : splitBlanks ([' '].intercalate (fs.map ImapFlag.text)) = fs.map ImapFlag.text := by
    apply splitBlanks_intercalate
    · intro word hword
      obtain ⟨f, rfl⟩ := hwords word hword
      exact f.text_ne_nil
    · intro word hword c hc
      obtain ⟨f, rfl⟩ := hwords word hword
      exact (f.char_of_mem hc).1
  rw [parseFlags, String.toList_ofList, hfound]
  simp only [hsplit, List.map_map]
  rfl

/-- Text that neither opens a list nor ends a line. -/
def Plain (text : List Char) : Prop := ∀ c ∈ text, c ≠ '(' ∧ c ≠ '\n'

instance : DecidablePred Plain := List.decidableBAll (fun c => c ≠ '(' ∧ c ≠ '\n')

theorem Plain.append {front rest : List Char} (hfront : Plain front) (hrest : Plain rest) :
    Plain (front ++ rest) := by
  intro c hc
  rcases List.mem_append.mp hc with h | h
  · exact hfront c h
  · exact hrest c h

theorem Plain.flatMap {items : List FetchItem} {text : FetchItem → List Char}
    (h : ∀ i ∈ items, Plain (text i)) : Plain (items.flatMap text) := by
  intro c hc
  obtain ⟨i, hi, hmem⟩ := List.mem_flatMap.mp hc
  exact h i hi c hmem

theorem plain_number (n : ℕ) : Plain (toString n).toList := by
  intro c hc
  have hdigit := digit_of_mem hc
  constructor
  · rintro rfl
    exact absurd hdigit (by decide)
  · rintro rfl
    exact absurd hdigit (by decide)

theorem FetchItem.plain {i : FetchItem} (h : i.flags? = none) : Plain i.text := by
  cases i with
  | uid n => exact Plain.append (by decide) (plain_number n)
  | flags fs => cases h

/-- Where the one list stands among items. -/
theorem exists_of_one_flags {items : List FetchItem} {fs : List ImapFlag}
    (h : items.filterMap FetchItem.flags? = [fs]) :
    ∃ xs ys, items = xs ++ .flags fs :: ys ∧ (∀ i ∈ xs, i.flags? = none) ∧
      ∀ i ∈ ys, i.flags? = none := by
  obtain ⟨xs, i, ys, heq, hxs, hi, hys⟩ := List.filterMap_eq_cons_iff.mp h
  cases i with
  | uid n => cases hi
  | flags fs' =>
    obtain rfl : fs' = fs := Option.some.inj hi
    exact ⟨xs, ys, heq, hxs, List.filterMap_eq_nil_iff.mp hys⟩

/-- The line before the literal. -/
def frontLine (seq : ℕ) (items : List FetchItem) (rest : List Char) : String :=
  String.ofList ((toString seq).toList ++ (" (".toList ++ (items.flatMap (·.text ++ [' ']) ++ rest)))

/-- The line behind it. -/
def behindLine (items : List FetchItem) : String :=
  String.ofList (items.flatMap (' ' :: ·.text) ++ [')'])

variable {items : List FetchItem} {fs : List ImapFlag} {rest : List Char}

theorem parseFlags_frontLine (seq : ℕ) (hrest : Plain rest)
    (h : items.filterMap FetchItem.flags? = [fs]) :
    parseFlags (frontLine seq items rest) = fs.map (fun f => String.ofList f.text) := by
  obtain ⟨xs, ys, rfl, hxs, hys⟩ := exists_of_one_flags h
  have hblank : Plain [' '] := by decide
  have hxsText : Plain (xs.flatMap (·.text ++ [' '])) :=
    Plain.flatMap (fun i hi => (FetchItem.plain (hxs i hi)).append hblank)
  have hysText : Plain (ys.flatMap (·.text ++ [' '])) :=
    Plain.flatMap (fun i hi => (FetchItem.plain (hys i hi)).append hblank)
  have hsplit : frontLine seq (xs ++ .flags fs :: ys) rest = String.ofList
      (((toString seq).toList ++ (" (".toList ++ xs.flatMap (·.text ++ [' ']))) ++
        ((FetchItem.flags fs).text ++ ([' '] ++ (ys.flatMap (·.text ++ [' ']) ++ rest)))) := by
    simp [frontLine]
  rw [hsplit]
  apply parseFlags_list
  · intro hmem
    rw [List.mem_append, List.mem_append] at hmem
    rcases hmem with hmem | hmem | hmem
    · exact (plain_number seq _ hmem).2 rfl
    · exact absurd hmem (by decide)
    · exact (hxsText _ hmem).2 rfl
  · exact fun hmem => (hblank.append (hysText.append hrest) _ hmem).1 rfl

theorem parseFlags_frontLine_nil (seq : ℕ) (hrest : Plain rest)
    (h : items.filterMap FetchItem.flags? = []) : parseFlags (frontLine seq items rest) = [] := by
  have hnone := List.filterMap_eq_nil_iff.mp h
  have hitems : Plain (items.flatMap (·.text ++ [' '])) :=
    Plain.flatMap (fun i hi => (FetchItem.plain (hnone i hi)).append (by decide))
  -- the parenthesis that opens the items is not one of a list
  have hgroup : flagsGroup (frontLine seq items rest).toList = none := by
    rw [frontLine, String.toList_ofList]
    apply flagsGroup_append_eq_none
    · intro hmem
      exact absurd (digit_of_mem hmem) (by decide)
    · apply flagsGroup_append_eq_none (by decide)
      exact flagsGroup_eq_none (fun hmem => (hitems.append hrest _ hmem).1 rfl)
  rw [parseFlags, hgroup]

theorem parseFlags_behindLine (h : items.filterMap FetchItem.flags? = [fs]) :
    parseFlags (behindLine items) = fs.map (fun f => String.ofList f.text) := by
  obtain ⟨xs, ys, rfl, hxs, hys⟩ := exists_of_one_flags h
  have hblank : Plain [' '] := by decide
  have hxsText : Plain (xs.flatMap (' ' :: ·.text)) :=
    Plain.flatMap (fun i hi => hblank.append (FetchItem.plain (hxs i hi)))
  have hysText : Plain (ys.flatMap (' ' :: ·.text)) :=
    Plain.flatMap (fun i hi => hblank.append (FetchItem.plain (hys i hi)))
  have hsplit : behindLine (xs ++ .flags fs :: ys) = String.ofList
      ((xs.flatMap (' ' :: ·.text) ++ [' ']) ++
        ((FetchItem.flags fs).text ++ (ys.flatMap (' ' :: ·.text) ++ [')']))) := by
    simp [behindLine]
  rw [hsplit]
  apply parseFlags_list
  · exact fun hmem => (hxsText.append hblank _ hmem).2 rfl
  · have hend : Plain [')'] := by decide
    exact fun hmem => (hysText.append hend _ hmem).1 rfl

theorem parseFlags_behindLine_nil (h : items.filterMap FetchItem.flags? = []) :
    parseFlags (behindLine items) = [] := by
  have hnone := List.filterMap_eq_nil_iff.mp h
  have hitems : Plain (items.flatMap (' ' :: ·.text)) := by
    apply Plain.flatMap
    intro i hi
    have hblank : Plain [' '] := by decide
    exact hblank.append (FetchItem.plain (hnone i hi))
  have hend : Plain [')'] := by decide
  have hgroup : flagsGroup (behindLine items).toList = none := by
    rw [behindLine, String.toList_ofList]
    exact flagsGroup_eq_none (fun hmem => (hitems.append hend _ hmem).1 rfl)
  rw [parseFlags, hgroup]

end lines

section answers

def ImapFlag.name (f : ImapFlag) : String := String.ofList f.text

/-- Wherever its FLAGS item stands, an answer brings the flags of its message. -/
theorem FetchedMessage.data_flags (m : FetchedMessage) :
    (m.data.map FetchData.part).flatMap (·.flags) = m.flags.map ImapFlag.name := by
  have hrest : Plain ("RFC822 \x7b".toList ++ (toString m.literal.length).toList ++ ['}']) :=
    (Plain.append (by decide) (plain_number _)).append (by decide)
  have hdata : (m.data.map FetchData.part).flatMap (·.flags) =
      parseFlags (frontLine m.seq m.front
        ("RFC822 \x7b".toList ++ (toString m.literal.length).toList ++ ['}'])) ++
          parseFlags (behindLine m.behind) := by
    simp [data, FetchData.part, frontLine, behindLine]
  have hone := m.one_flags
  rw [List.filterMap_append, List.append_eq_singleton_iff] at hone
  rw [hdata]
  rcases hone with ⟨hfront, hbehind⟩ | ⟨hfront, hbehind⟩
  · rw [parseFlags_frontLine_nil m.seq hrest hfront, parseFlags_behindLine hbehind]
    rfl
  · rw [parseFlags_frontLine m.seq hrest hfront, parseFlags_behindLine_nil hbehind,
      List.append_nil]
    rfl

theorem FlagUpdate.data_flags (u : FlagUpdate) :
    u.data.part.flags = u.flags.map ImapFlag.name := by
  have hitems : Plain ((u.uid.map FetchItem.uid).toList.flatMap (·.text ++ [' '])) := by
    apply Plain.flatMap
    intro i hi
    have hnone : i.flags? = none := by
      obtain ⟨n, -, rfl⟩ := Option.map_eq_some_iff.mp (Option.mem_toList.mp hi)
      rfl
    exact (FetchItem.plain hnone).append (by decide)
  have hline : '\n' ∉ (toString u.seq).toList ++ (" (".toList ++
      (u.uid.map FetchItem.uid).toList.flatMap (·.text ++ [' '])) := by
    intro hmem
    rw [List.mem_append, List.mem_append] at hmem
    rcases hmem with hmem | hmem | hmem
    · exact (plain_number u.seq _ hmem).2 rfl
    · exact absurd hmem (by decide)
    · exact (hitems _ hmem).2 rfl
  have hend : '(' ∉ [')'] := by decide
  have hparsed := parseFlags_list u.flags hline hend
  simp only [List.append_assoc] at hparsed
  simp only [FetchData.part, FlagUpdate.data, hparsed]
  rfl

variable (m : FetchedMessage) (before after : List FlagUpdate)

/-- All the flags that the data of a FETCH lists, those of other messages too. -/
def sentFlags : List ImapFlag :=
  before.flatMap (·.flags) ++ (m.flags ++ after.flatMap (·.flags))

theorem fetchData_flags : ((fetchData m before after).map FetchData.part).flatMap (·.flags) =
    (sentFlags m before after).map ImapFlag.name := by
  have hupdates : ∀ us : List FlagUpdate,
      ((us.map FlagUpdate.data).map FetchData.part).flatMap (·.flags) =
        (us.flatMap (·.flags)).map ImapFlag.name := by
    intro us
    rw [List.map_map, List.flatMap_map, List.map_flatMap]
    exact congrArg (us.flatMap ·) (funext (fun u => u.data_flags))
  rw [fetchData, List.map_append, List.map_append, List.flatMap_append, List.flatMap_append,
    hupdates, hupdates, m.data_flags, sentFlags, List.map_append, List.map_append]

theorem fetchData_literal :
    (((fetchData m before after).map FetchData.part).filterMap (·.literal)).getLast?.getD [] =
      m.literal := by
  have hupdates : ∀ us : List FlagUpdate,
      ((us.map FlagUpdate.data).map FetchData.part).filterMap (·.literal) = [] := by
    intro us
    simp [FlagUpdate.data, FetchData.part]
  rw [fetchData, List.map_append, List.map_append, List.filterMap_append, List.filterMap_append,
    hupdates, hupdates]
  simp [FetchedMessage.data, FetchData.part]

/-- A mark is found among the flags when one of them begins with it: a backslash stands nowhere
else. -/
theorem isIn_names (mark : ImapFlag) (hmark : mark.slashed = true) (fs : List ImapFlag) :
    isIn mark.name (" ".intercalate (fs.map ImapFlag.name)) = true ↔
      ∃ f ∈ fs, mark.text <+: f.text := by
  have hblank : ' ' ∉ mark.text := by
    intro hmem
    exact absurd (mark.char_of_mem hmem).1 (by decide)
  have hhead : mark.text = '\\' :: mark.atom.toList := if_pos hmark
  have hplain : ∀ f : ImapFlag, '\\' ∉ f.atom.toList := by
    intro f hmem
    exact absurd (f.atom_chars _ hmem).1 (by decide)
  have hpieces : (fs.map ImapFlag.name).map String.toList = fs.map ImapFlag.text := by
    rw [List.map_map]
    congr 1
    funext f
    exact String.toList_ofList
  rw [isIn, decide_eq_true_eq, String.toList_intercalate, hpieces]
  change (String.ofList mark.text).toList <:+: [' '].intercalate (fs.map ImapFlag.text) ↔ _
  rw [String.toList_ofList, infix_intercalate hblank mark.text_ne_nil]
  have hone : ∀ f : ImapFlag, mark.text <:+: f.text ↔ mark.text <+: f.text := by
    intro f
    constructor
    · intro h
      have hnot : ¬ mark.text <:+: f.atom.toList := by
        intro hatom
        apply hplain f
        rw [hhead] at hatom
        exact hatom.subset List.mem_cons_self
      by_cases hslash : f.slashed = true
      · rw [ImapFlag.text.eq_def f, if_pos hslash, List.infix_cons_iff] at h
        rw [ImapFlag.text.eq_def f, if_pos hslash]
        exact h.resolve_right hnot
      · rw [ImapFlag.text.eq_def f, if_neg hslash] at h
        exact absurd h hnot
    · exact fun h => h.isInfix
  simp only [List.mem_map, exists_exists_and_eq_and, hone]

/-- The message has the body and the two marks that the server sent for it. -/
def OwnFlags : Except ImapExc SourceMessage → Prop
  | .ok message => message.rawMime = m.literal ∧
      (message.isRead = true ↔ ImapFlag.seen ∈ m.flags) ∧
      (message.isFlagged = true ↔ ImapFlag.flagged ∈ m.flags)
  | .error _ => False

/-- No flag that is sent begins with a mark that the message does not have. A message without a
byte is never looked at: it is a stub that counts as read. -/
def Unmixed : Prop :=
  if m.literal = [] then ImapFlag.seen ∈ m.flags ∧ ImapFlag.flagged ∉ m.flags
  else ∀ mark ∈ [ImapFlag.seen, ImapFlag.flagged],
    (∃ f ∈ sentFlags m before after, mark.text <+: f.text) → mark ∈ m.flags

theorem mark_iff {mark : ImapFlag} (hmark : mark.slashed = true) :
    (isIn mark.name (" ".intercalate ((sentFlags m before after).map ImapFlag.name)) = true ↔
        mark ∈ m.flags) ↔
      ((∃ f ∈ sentFlags m before after, mark.text <+: f.text) → mark ∈ m.flags) := by
  rw [isIn_names mark hmark]
  have hown : mark ∈ m.flags → ∃ f ∈ sentFlags m before after, mark.text <+: f.text := by
    intro hmem
    have hsent : mark ∈ sentFlags m before after :=
      List.mem_append_right _ (List.mem_append_left _ hmem)
    exact ⟨mark, hsent, List.prefix_refl _⟩
  exact ⟨fun h => h.mp, fun h => ⟨h, hown⟩⟩

/-- `_fetch_message` gives a message its own flags as long as no other flags are mixed in. -/
theorem fetchMessage_ownFlags_iff (messageIdOf : Bytes → Option String) (folder : ImapFolder)
    (uid uidvalidity : ℕ) :
    OwnFlags m (fetchMessage messageIdOf folder uid uidvalidity
        (.ok (.parts ((fetchData m before after).map FetchData.part)))) ↔
      Unmixed m before after := by
  have hflags := fetchData_flags m before after
  have hliteral := fetchData_literal m before after
  simp only [fetchMessage, hflags, hliteral]
  by_cases hempty : m.literal = []
  · -- the stub has the marks that a message has by default
    rw [if_pos hempty, Unmixed, if_pos hempty]
    simp [OwnFlags, fetchFailed, hempty]
  · rw [if_neg hempty, Unmixed, if_neg hempty, List.forall_mem_cons, List.forall_mem_singleton,
      ← mark_iff m before after rfl, ← mark_iff m before after rfl]
    exact ⟨fun h => h.2, fun h => ⟨rfl, h⟩⟩

end answers

/-- The answer for an unread message of two bytes. -/
def unreadMessage : FetchedMessage where
  seq := 1
  front := [.uid 150, .flags []]
  literal := [65, 66]
  behind := []
  flags := []
  one_flags := rfl

/-- Another client reads message 2 in the meantime, and the unread message counts as read. -/
theorem unreadMessage_marked :
    ¬ ∀ (messageIdOf : Bytes → Option String) (m : FetchedMessage) (before after : List FlagUpdate),
      OwnFlags m (fetchMessage messageIdOf ⟨"INBOX", "Inbox"⟩ 150 7
        (.ok (.parts ((fetchData m before after).map FetchData.part)))) := by
  intro hall
  have hown := hall (fun _ => none) unreadMessage [] [⟨2, none, [ImapFlag.seen]⟩]
  have hread := hown.2.1.mp (by decide +kernel)
  exact absurd hread (by decide)

end GwsMigrator
