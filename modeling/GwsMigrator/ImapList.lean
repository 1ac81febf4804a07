import GwsMigrator.Escapes
import GwsMigrator.ImapSource

/-! The lines of a LIST answer as `_folders` reads them, and the names as `_quote` sends them
back. The pattern asks for marks of ASCII alone, so a line in UTF-8 may be decoded before. -/
namespace GwsMigrator
open Separators TextEdits Escapes

/-- The `.*$` of `_LIST_RE`: the rest of a line, with at most a newline behind it. -/
def restOfLine (text : List Char) : Option (List Char) :=
  let name := text.takeWhile (· ≠ '\n')
  if text.drop name.length ∈ [[], ['\n']] then some name else none

/-- Its `"? (?P<name>.*)$`. -/
def matchName : List Char → Option (List Char)
  | '"' :: ' ' :: rest => restOfLine rest
  | ' ' :: rest => restOfLine rest
  | _ => none

/-- Its `(?P<delim>[^"]*)` and what follows, the longest delimiter first. -/
def matchDelim : List Char → Option (List Char × List Char)
  | [] => none
  | c :: rest =>
    if c = '"' then (matchName (c :: rest)).map (fun name => ([], name))
    else ((matchDelim rest).map (fun m => (c :: m.1, m.2))).or
      ((matchName (c :: rest)).map (fun name => ([], name)))

/-- Its optional quote before the delimiter, which is taken if a match is found that way. -/
def matchQuotedDelim : List Char → Option (List Char × List Char)
  | '"' :: rest => (matchDelim rest).or (matchDelim ('"' :: rest))
  | text => matchDelim text

/-- `_LIST_RE.match`: the flags end at the first parenthesis. -/
def matchListLine : List Char → Option (List Char × List Char × List Char)
  | '(' :: text =>
    let flags := text.takeWhile (· ≠ ')')
    match text.drop flags.length with
    | ')' :: ' ' :: rest => (matchQuotedDelim rest).map (fun m => (flags, m))
    | _ => none
  | _ => none

/-- A line with its groups decoded, and the name stripped of blanks and of quotes. -/
def parseListLine (line : String) : Option ListLine :=
  (matchListLine line.toList).map (fun m =>
    ⟨String.ofList m.1, String.ofList m.2.1,
      String.ofList (strip (· = '"') (strip isSpace m.2.2))⟩)

/-- The delimiter that `_folders` hands to `_map_folder`. -/
def handedDelim (m : ListLine) : String := if m.delim = "" then "/" else m.delim

/-- `_quote`. -/
def quoteName (name : String) : String :=
  "\"" ++ replaceText (replaceText name "\\" "\\\\") "\"" "\\\"" ++ "\""

/-- The characters that a quoted string has an escape before. -/
def isQuotedSpecial (c : Char) : Bool := c = '\\' ∨ c = '"'

/-- A quoted string as the protocol has it. -/
def quotedString (text : List Char) : List Char :=
  '"' :: (escape isQuotedSpecial '\\' text ++ ['"'])

/-- The delimiter of a LIST line. A server without hierarchy has none. -/
def delimText : Option Char → List Char
  | some d => quotedString [d]
  | none => ['N', 'I', 'L']

/-- A line of a LIST answer, with the name as it is sent. -/
def listLine (flags : String) (delim : Option Char) (wireName : List Char) : String :=
  String.ofList ('(' :: (flags.toList ++ ')' :: ' ' :: (delimText delim ++ ' ' :: wireName)))

/-- The characters of an atom, among the printable ones. -/
def isAtomChar (c : Char) : Bool := c ∉ ['(', ')', '{', ' ', '%', '*', '"', '\\']

/-- A mailbox that can be selected, as a server lists it. Without hierarchy it has no
delimiter. -/
structure ListedMailbox where
  name : String
  delim : Option Char
  flags : String
  quoted : Bool
  excludeFolders : List String
  name_printable : ∀ c ∈ name.toList, 32 ≤ c.toNat ∧ c.toNat ≤ 126
  name_head : name.toList.head? ≠ some ' '
  name_last : name.toList.getLast? ≠ some ' '
  name_included : name ∉ excludeFolders
  delim_ascii : ∀ d, delim = some d → d.toNat < 128
  flags_ascii : ∀ c ∈ flags.toList, c.toNat < 128
  flags_closed : ')' ∉ flags.toList
  selectable : isIn "\\Noselect" flags = false
  atom : quoted = false → name ≠ "" ∧ ∀ c ∈ name.toList, isAtomChar c = true

namespace ListedMailbox

def wireName (f : ListedMailbox) : List Char :=
  if f.quoted then quotedString f.name.toList else f.name.toList

/-- The line of the answer. -/
def line (f : ListedMailbox) : String := listLine f.flags f.delim f.wireName

/-- The line gives one folder. `_quote` makes the quoted form of the mailbox's name from the
folder's, and the delimiter is the server's, or splits nothing where there is none. -/
def RoundTrips (f : ListedMailbox) : Prop :=
  ∃ m, parseListLine f.line = some m ∧
    listedFolders f.excludeFolders [parseListLine f.line] =
      [⟨m.name, mapFolder m.name f.flags (handedDelim m)⟩] ∧
    (quoteName m.name).toList = quotedString f.name.toList ∧
    match f.delim with
    | some d => handedDelim m = String.singleton d
    | none => splitText m.name (handedDelim m) = [m.name]

/-- Nothing in the line had to be escaped, and without a delimiter the text that stands for it
is not in the name. -/
def Plain (f : ListedMailbox) : Prop :=
  (∀ c ∈ f.name.toList, isQuotedSpecial c = false) ∧
    (∀ d, f.delim = some d → isQuotedSpecial d = false) ∧
    (f.delim = none → isIn "NIL" f.name = false)

end ListedMailbox

/-- `_quote` makes the protocol's quoted string. -/
theorem quoteName_eq (name : String) : (quoteName name).toList = quotedString name.toList := by
  have hescape : (replaceText (replaceText name "\\" "\\\\") "\"" "\\\"").toList =
      escape isQuotedSpecial '\\' name.toList := by
    simp only [replaceText, String.toList_ofList]
    exact substitute_substitute (e := '\\') (q := '"') (by decide) name.toList
  rw [quoteName, String.toList_append, String.toList_append, hescape]
  rfl

theorem quotedString_injective : Function.Injective quotedString := by
  intro as bs h
  have hbody := (List.cons.inj h).2
  exact escape_injective isQuotedSpecial '\\' (by decide) (List.append_cancel_right hbody)

section matching

theorem restOfLine_eq {text : List Char} (h : '\n' ∉ text) : restOfLine text = some text := by
  have hall : text.takeWhile (· ≠ '\n') = text := by
    apply List.takeWhile_eq_self_iff.mpr
    intro c hc
    simpa using ne_of_mem_of_not_mem hc h
  rw [restOfLine, hall, List.drop_length]
  rfl

theorem matchName_eq_none {text : List Char} (h : ' ' ∉ text) : matchName text = none := by
  unfold matchName
  split
  · simp at h
  · simp at h
  · rfl

/-- A name has a blank before it. -/
theorem matchDelim_eq_none {text : List Char} (h : ' ' ∉ text) : matchDelim text = none := by
  induction text with
  | nil => rfl
  | cons c rest ih =>
    have hrest : ' ' ∉ rest := fun hmem => h (List.mem_cons_of_mem c hmem)
    rw [matchDelim, matchName_eq_none h, ih hrest]
    split <;> rfl

theorem matchDelim_cons {c : Char} {rest delim name : List Char} (hc : c ≠ '"')
    (h : matchDelim rest = some (delim, name)) :
    matchDelim (c :: rest) = some (c :: delim, name) := by
  rw [matchDelim, if_neg hc, h]
  rfl

/-- Behind the closing quote of a delimiter. -/
theorem matchDelim_quote {name : List Char} (h : '\n' ∉ name) :
    matchDelim ('"' :: ' ' :: name) = some ([], name) := by
  rw [matchDelim, if_pos rfl, matchName, restOfLine_eq h]
  rfl

/-- The delimiter of a server without hierarchy is read for its text. -/
theorem matchQuotedDelim_nil {name : List Char} (hnl : '\n' ∉ name)
    (hnone : matchDelim name = none) :
    matchQuotedDelim ('N' :: 'I' :: 'L' :: ' ' :: name) = some (['N', 'I', 'L'], name) := by
  have hend : matchDelim (' ' :: name) = some ([], name) := by
    rw [matchDelim, if_neg (by decide), hnone, matchName, restOfLine_eq hnl]
    rfl
  exact matchDelim_cons (by decide) (matchDelim_cons (by decide) (matchDelim_cons (by decide) hend))

/-- A blank that a quoted name begins with ends the delimiter instead. -/
theorem matchQuotedDelim_nil_blank {rest : List Char} (hnl : '\n' ∉ rest) :
    matchQuotedDelim ('N' :: 'I' :: 'L' :: ' ' :: '"' :: ' ' :: rest) =
      some (['N', 'I', 'L', ' '], rest) := by
  have hend : matchDelim (' ' :: '"' :: ' ' :: rest) = some ([' '], rest) :=
    matchDelim_cons (by decide) (matchDelim_quote hnl)
  exact matchDelim_cons (by decide) (matchDelim_cons (by decide) (matchDelim_cons (by decide) hend))

/-- A quoted delimiter is read as it is written, escape and all. -/
theorem matchQuotedDelim_quoted {delim name : List Char} (hdelim : '"' ∉ delim)
    (hnl : '\n' ∉ name) :
    matchQuotedDelim ('"' :: (delim ++ '"' :: ' ' :: name)) = some (delim, name) := by
  have hgroup : ∀ d : List Char, '"' ∉ d →
      matchDelim (d ++ '"' :: ' ' :: name) = some (d, name) := by
    intro d hd
    induction d with
    | nil => exact matchDelim_quote hnl
    | cons c d ih =>
      obtain ⟨hc, hd⟩ := not_or.mp (mt List.mem_cons.mpr hd)
      exact matchDelim_cons (Ne.symm hc) (ih hd)
  rw [matchQuotedDelim, hgroup delim hdelim]
  rfl

/-- A line whose delimiter is a quote does not match. -/
theorem matchQuotedDelim_quote (name : List Char) :
    matchQuotedDelim ('"' :: '\\' :: '"' :: '"' :: ' ' :: name) = none := by
  rfl

theorem matchListLine_eq {flags rest : List Char} (h : ')' ∉ flags) :
    matchListLine ('(' :: (flags ++ ')' :: ' ' :: rest)) =
      (matchQuotedDelim rest).map (fun m => (flags, m)) := by
  have hflags : (flags ++ ')' :: ' ' :: rest).takeWhile (· ≠ ')') = flags := by
    rw [List.takeWhile_append_of_pos (by
      intro c hc
      simpa using ne_of_mem_of_not_mem hc h)]
    simp
  simp only [matchListLine, hflags, List.drop_left]

theorem newline_notMem_quotedString {text : List Char} (h : '\n' ∉ text) :
    '\n' ∉ quotedString text := by
  intro hmem
  rcases List.mem_cons.mp hmem with hquote | hmem
  · cases hquote
  rcases List.mem_append.mp hmem with hmem | hquote
  · rcases mem_escape isQuotedSpecial '\\' hmem with hescape | hmem
    · cases hescape
    · exact h hmem
  · cases List.mem_singleton.mp hquote

/-- A quoted name has no delimiter and second name in it, unless it begins with a blank. -/
theorem matchDelim_quotedString {text : List Char} (h : text.head? ≠ some ' ') :
    matchDelim (quotedString text) = none := by
  rw [quotedString, matchDelim, if_pos rfl]
  cases text with
  | nil => rfl
  | cons c rest =>
    rw [List.head?_cons] at h
    rw [escape_cons]
    split
    · rfl
    · have hc : c ≠ ' ' := fun hblank => h (congrArg some hblank)
      have hnone : matchName ('"' :: ([c] ++ escape isQuotedSpecial '\\' rest ++ ['"'])) = none := by
        rw [List.singleton_append, List.cons_append]
        unfold matchName
        split
        · rename_i heq
          exact absurd (List.cons.inj (List.cons.inj heq).2).1 hc
        · rename_i heq
          cases (List.cons.inj heq).1
        · rfl
      rw [hnone]
      rfl

section line
variable {flags : String} (hflags : ')' ∉ flags.toList) {wireName : List Char}

include hflags

theorem parse_listLine {delim : Option Char} {d name : List Char}
    (h : matchQuotedDelim (delimText delim ++ ' ' :: wireName) = some (d, name)) :
    parseListLine (listLine flags delim wireName) =
      some ⟨flags, String.ofList d, String.ofList (strip (· = '"') (strip isSpace name))⟩ := by
  rw [parseListLine, listLine, String.toList_ofList, matchListLine_eq hflags, h]
  simp only [Option.map_some, String.ofList_toList]

/-- A delimiter that is no quote gives a line that is read, with the text between the quotes. -/
theorem parse_listLine_delim (hnl : '\n' ∉ wireName) {d : Char} (hquote : d ≠ '"') :
    parseListLine (listLine flags (some d) wireName) =
      some ⟨flags, String.ofList (escape isQuotedSpecial '\\' [d]),
        String.ofList (strip (· = '"') (strip isSpace wireName))⟩ := by
  apply parse_listLine hflags
  have hnot : '"' ∉ escape isQuotedSpecial '\\' [d] := by
    intro hmem
    rcases mem_escape isQuotedSpecial '\\' hmem with h | h
    · cases h
    · exact hquote (List.mem_singleton.mp h).symm
  have hwire : delimText (some d) ++ ' ' :: wireName =
      '"' :: (escape isQuotedSpecial '\\' [d] ++ '"' :: ' ' :: wireName) := by
    simp [delimText, quotedString]
  rw [hwire, matchQuotedDelim_quoted hnot hnl]

theorem parse_listLine_quote : parseListLine (listLine flags (some '"') wireName) = none := by
  have hwire : delimText (some '"') ++ ' ' :: wireName =
      '"' :: '\\' :: '"' :: '"' :: ' ' :: wireName := rfl
  rw [parseListLine, listLine, String.toList_ofList, matchListLine_eq hflags, hwire,
    matchQuotedDelim_quote]
  rfl

theorem parse_listLine_nil (hnl : '\n' ∉ wireName) (hnone : matchDelim wireName = none) :
    parseListLine (listLine flags none wireName) =
      some ⟨flags, "NIL", String.ofList (strip (· = '"') (strip isSpace wireName))⟩ := by
  apply parse_listLine hflags
  rw [delimText, List.cons_append, List.cons_append, List.cons_append, List.nil_append,
    matchQuotedDelim_nil hnl hnone]

end line
end matching

section naming

theorem isSpace_of_printable {c : Char} (h : 32 ≤ c.toNat ∧ c.toNat ≤ 126) :
    isSpace c = true ↔ c = ' ' := by
  have hspace : c = ' ' ↔ c.toNat = 32 := by
    rw [← Char.toNat_inj]
    rfl
  rw [hspace]
  simp only [isSpace, isBlank, decide_eq_true_eq, List.mem_cons, List.not_mem_nil, or_false]
  omega

/-- The name of a quoted string is left with its escapes. -/
theorem strip_quotedString (text : List Char) :
    strip (· = '"') (strip isSpace (quotedString text)) =
      strip (· = '"') (quotedString text) := by
  congr 1
  apply strip_eq_self
  · intro c hc
    obtain rfl := Option.some.inj hc
    decide
  · intro c hc
    rw [quotedString, ← List.cons_append, List.getLast?_concat] at hc
    obtain rfl := Option.some.inj hc
    decide

/-- It is the mailbox's name exactly when there are none. -/
theorem strip_quotedString_iff (text : List Char) :
    strip (· = '"') (quotedString text) = text ↔ ∀ c ∈ text, isQuotedSpecial c = false := by
  constructor
  · intro h
    -- the escapes are still in it
    have hcount : text.count '\\' = text.count '\\' + text.countP isQuotedSpecial := by
      calc text.count '\\' = (strip (· = '"') (quotedString text)).count '\\' := by rw [h]
        _ = (quotedString text).count '\\' := count_strip _ (by decide) _
        _ = (escape isQuotedSpecial '\\' text).count '\\' := by
          rw [quotedString, List.count_cons_of_ne (by decide), List.count_append]
          simp
        _ = text.count '\\' + text.countP isQuotedSpecial :=
          count_escape isQuotedSpecial '\\' (by decide) text
    have hzero : text.countP isQuotedSpecial = 0 := by omega
    intro c hc
    simpa using List.countP_eq_zero.mp hzero c hc
  · intro h
    rw [quotedString, escape_eq_self isQuotedSpecial '\\' h]
    apply strip_between _ (by decide) (by decide)
    intro c hc
    have hspecial := h c hc
    simp only [isQuotedSpecial, decide_eq_false_iff_not, not_or] at hspecial
    simpa using hspecial.2

namespace ListedMailbox
variable (f : ListedMailbox)

theorem atom_plain (h : f.quoted = false) : ∀ c ∈ f.name.toList, isQuotedSpecial c = false := by
  intro c hc
  have hatom := (f.atom h).2 c hc
  simp only [isAtomChar, List.mem_cons, List.not_mem_nil, decide_eq_true_eq, not_or] at hatom
  simp only [isQuotedSpecial, decide_eq_false_iff_not, not_or]
  tauto

/-- The name that `_folders` has for the line. -/
def rawName : String := String.ofList (strip (· = '"') (strip isSpace f.wireName))

theorem rawName_iff : f.rawName = f.name ↔ ∀ c ∈ f.name.toList, isQuotedSpecial c = false := by
  have hlist : f.rawName = f.name ↔
      strip (· = '"') (strip isSpace f.wireName) = f.name.toList := by
    rw [← String.toList_inj, rawName, String.toList_ofList]
  rw [hlist, wireName]
  cases hquoted : f.quoted with
  | true =>
    rw [if_pos rfl, strip_quotedString]
    exact strip_quotedString_iff f.name.toList
  | false =>
    rw [if_neg Bool.false_ne_true]
    refine iff_of_true ?_ (f.atom_plain hquoted)
    have hblank : ∀ c ∈ f.name.toList, isSpace c = true → c = ' ' := fun c hc =>
      (isSpace_of_printable (f.name_printable c hc)).mp
    have hself : strip isSpace f.name.toList = f.name.toList := by
      apply strip_eq_self
      · intro c hc
        by_contra hb
        rw [hblank c (List.mem_of_mem_head? hc) (by simpa using hb)] at hc
        exact f.name_head hc
      · intro c hc
        by_contra hb
        rw [hblank c (List.mem_of_mem_getLast? hc) (by simpa using hb)] at hc
        exact f.name_last hc
    have hquote : ∀ c ∈ f.name.toList, decide (c = '"') = false := by
      intro c hc
      have hspecial := f.atom_plain hquoted c hc
      simp only [isQuotedSpecial, decide_eq_false_iff_not, not_or] at hspecial
      simpa using hspecial.2
    rw [hself]
    apply strip_eq_self
    · exact fun c hc => hquote c (List.mem_of_mem_head? hc)
    · exact fun c hc => hquote c (List.mem_of_mem_getLast? hc)

end ListedMailbox
end naming

namespace ListedMailbox
variable (f : ListedMailbox)

theorem newline_notMem_wireName : '\n' ∉ f.wireName := by
  have hname : '\n' ∉ f.name.toList := fun h =>
    absurd (f.name_printable _ h).1 (by decide)
  rw [wireName]
  split
  · exact newline_notMem_quotedString hname
  · exact hname

/-- A name has no delimiter and second name in it, since none begins with a blank. -/
theorem matchDelim_wireName : matchDelim f.wireName = none := by
  rw [wireName]
  cases hquoted : f.quoted with
  | false =>
    rw [if_neg Bool.false_ne_true]
    apply matchDelim_eq_none
    intro hmem
    exact absurd ((f.atom hquoted).2 _ hmem) (by decide)
  | true => exact matchDelim_quotedString f.name_head

theorem parse_delim {d : Char} (hd : f.delim = some d) (hquote : d ≠ '"') :
    parseListLine f.line =
      some ⟨f.flags, String.ofList (escape isQuotedSpecial '\\' [d]), f.rawName⟩ := by
  rw [line, hd]
  exact parse_listLine_delim f.flags_closed f.newline_notMem_wireName hquote

theorem parse_quote (hd : f.delim = some '"') : parseListLine f.line = none := by
  rw [line, hd]
  exact parse_listLine_quote f.flags_closed

theorem parse_nil (hd : f.delim = none) :
    parseListLine f.line = some ⟨f.flags, "NIL", f.rawName⟩ := by
  rw [line, hd]
  exact parse_listLine_nil f.flags_closed f.newline_notMem_wireName f.matchDelim_wireName

/-- The name comes back through `_quote` exactly when the line gives it without escapes. -/
theorem quoted_back_iff :
    (quoteName f.rawName).toList = quotedString f.name.toList ↔
      ∀ c ∈ f.name.toList, isQuotedSpecial c = false := by
  rw [quoteName_eq, quotedString_injective.eq_iff, String.toList_inj, f.rawName_iff]

/-- A line that is read under the mailbox's name gives one folder. -/
theorem listed {delim : String} (hname : f.rawName = f.name) :
    listedFolders f.excludeFolders [some ⟨f.flags, delim, f.rawName⟩] =
      [⟨f.rawName, mapFolder f.rawName f.flags (handedDelim ⟨f.flags, delim, f.rawName⟩)⟩] := by
  have hincluded : f.rawName ∉ f.excludeFolders := hname ▸ f.name_included
  simp only [listedFolders, List.filterMap_cons, List.filterMap_nil, Option.bind_some,
    f.selectable, Bool.false_eq_true, if_false, if_neg hincluded, handedDelim]

/-- The name NIL splits nothing exactly when it is not in the text. -/
theorem splitText_nil_iff (text : String) :
    splitText text "NIL" = [text] ↔ isIn "NIL" text = false := by
  constructor
  · intro h
    by_contra hin
    have htwo := two_le_length_cut "NIL".toList (by decide)
      (of_decide_eq_true (Bool.not_eq_false _ ▸ hin))
    have hone := congrArg List.length h
    rw [splitText, List.length_map] at hone
    rw [hone, List.length_singleton] at htwo
    exact absurd htwo (by decide)
  · intro h
    rw [splitText, cut_of_not_infix "NIL".toList (of_decide_eq_false h)]
    simp

/-- A mailbox survives LIST and `_quote` exactly when nothing in its line had to be escaped
and, without a delimiter, its name does not hold the text NIL. -/
theorem roundTrips_iff : f.RoundTrips ↔ f.Plain := by
  cases hd : f.delim with
  | none =>
    have hparse := f.parse_nil hd
    constructor
    · rintro ⟨m, hm, -, hquote, hdelim⟩
      obtain rfl := Option.some.inj (hparse.symm.trans hm)
      have hname := f.quoted_back_iff.mp hquote
      rw [hd] at hdelim
      refine ⟨hname, by simp [hd], fun _ => ?_⟩
      rw [← f.rawName_iff.mpr hname]
      exact (splitText_nil_iff _).mp hdelim
    · rintro ⟨hname, -, hnil⟩
      have hraw := f.rawName_iff.mpr hname
      refine ⟨_, hparse, ?_, f.quoted_back_iff.mpr hname, ?_⟩
      · rw [hparse]
        exact f.listed hraw
      · rw [hd]
        apply (splitText_nil_iff _).mpr
        rw [hraw]
        exact hnil hd
  | some d =>
    by_cases hquote : d = '"'
    · subst hquote
      have hparse := f.parse_quote hd
      constructor
      · rintro ⟨m, hm, -⟩
        rw [hparse] at hm
        cases hm
      · rintro ⟨-, hplain, -⟩
        exact absurd (hplain _ hd) (by decide)
    · have hparse := f.parse_delim hd hquote
      have hhanded : handedDelim ⟨f.flags, String.ofList (escape isQuotedSpecial '\\' [d]),
          f.rawName⟩ = String.singleton d ↔ isQuotedSpecial d = false := by
        rw [handedDelim, escape_cons, escape_nil, List.append_nil]
        cases hspecial : isQuotedSpecial d with
        | true => simp [← String.toList_inj]
        | false => simp [← String.toList_inj]
      constructor
      · rintro ⟨m, hm, -, hback, hdelim⟩
        obtain rfl := Option.some.inj (hparse.symm.trans hm)
        rw [hd] at hdelim
        refine ⟨f.quoted_back_iff.mp hback, ?_, by simp [hd]⟩
        intro d' hd'
        obtain rfl := Option.some.inj (hd.symm.trans hd')
        exact hhanded.mp hdelim
      · rintro ⟨hname, hdelim, -⟩
        refine ⟨_, hparse, ?_, f.quoted_back_iff.mpr hname, ?_⟩
        · rw [hparse]
          exact f.listed (f.rawName_iff.mpr hname)
        · rw [hd]
          exact hhanded.mpr (hdelim d hd)

end ListedMailbox

/-- A mailbox with a quote in its name. -/
def quoteInName : ListedMailbox where
  name := "Bids \"A\" 2024"
  delim := some '/'
  flags := "\\HasNoChildren"
  quoted := true
  excludeFolders := []
  name_printable := by simp
  name_head := by decide
  name_last := by decide
  name_included := by decide
  delim_ascii := by simp
  flags_ascii := by simp
  flags_closed := by decide
  selectable := by decide
  atom := by decide

/-- Its name is read with the escapes and sent back with two more for each. -/
theorem quoteInName_escaped_twice : ¬ ∀ f : ListedMailbox, f.RoundTrips := by
  intro h
  obtain ⟨m, hm, -, hquote, -⟩ := h quoteInName
  obtain rfl := Option.some.inj ((quoteInName.parse_delim rfl (by decide)).symm.trans hm)
  exact absurd hquote (by decide)

end GwsMigrator
