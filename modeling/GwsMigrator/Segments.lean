import GwsMigrator.TextEdits

/-! `transform/paths.py`: `sanitize_segment`, which cleans one segment of a path. -/
namespace GwsMigrator
open Separators TextEdits

/-- The characters of `_ILLEGAL_CHARS`. -/
def illegalChars : List Char :=
  ['~', '#', '%', '&', '*', '{', '}', '\\', ':', '<', '>', '?', '/', '|', '"']

/-- `_RESERVED_NAMES`. -/
def reservedNames : List String :=
  ["CON", "PRN", "AUX", "NUL"] ++ (List.range 10).map (fun i => "COM" ++ toString i) ++
    (List.range 10).map (fun i => "LPT" ++ toString i)

/-- `_FORBIDDEN_NAMES`. -/
def forbiddenNames : List String := ["desktop.ini"]

/-- `_SEGMENT_MAX`. -/
def segmentMax : ℕ := 128

/-- `_vti_`, and what `name.replace` puts in its place. -/
def vtiMark : List Char := ['_', 'v', 't', 'i', '_']

def vtiBroken : List Char := ['_', 'v', 't', 'i', '-']

/-- `text.upper()`. What it makes of letters beyond ASCII is in no reserved name. -/
def upper (text : List Char) : String := String.ofList (text.map Char.toUpper)

/-- `text[:stop]`; a negative `stop` counts from the end. -/
def sliceTo (text : List Char) (stop : ℤ) : List Char :=
  if 0 ≤ stop then text.take stop.toNat else text.take (text.length - (-stop).toNat)

/-- The name before its last dot and the rest behind it. A name without a dot is all stem. -/
def splitExt (name : List Char) : List Char × List Char :=
  if '.' ∈ name then rpartition '.' name else (name, [])

/-- The first two edits: of illegal characters, and of the blanks around each line. -/
def trimmed (name : List Char) : List Char :=
  trimLines ' ' '\n' true (squash (· ∈ illegalChars) '_' name)

/-- The next three: of runs of dots, of the dots at the ends, and of `_vti_`. -/
def cleaned (name : List Char) : List Char :=
  substitute vtiMark vtiBroken 0
    (strip (· = '.') (squash (· = '.') '.' (trimmed name)))

/-- A name of which nothing is left. -/
def named (name : List Char) : List Char :=
  if name = [] then ['_', 'u', 'n', 'n', 'a', 'm', 'e', 'd'] else name

def isReserved (name : List Char) : Bool :=
  upper (splitExt name).1 ∈ reservedNames ∨ lowerText (String.ofList name) ∈ forbiddenNames

/-- A reserved name gets a longer stem. -/
def unreserve (name : List Char) : List Char :=
  if isReserved name then
    let stem := (splitExt name).1 ++ ['_']
    let ext := (splitExt name).2
    if ext ≠ [] then stem ++ '.' :: ext else stem
  else name

/-- A name that is too long loses the end of its stem. -/
def shorten (name ext : List Char) : List Char :=
  if segmentMax < name.length then
    if ext ≠ [] then sliceTo name ((segmentMax : ℤ) - ext.length - 1) ++ '.' :: ext
    else name.take segmentMax
  else name

/-- `sanitize_segment`. -/
def sanitizeSegment (name : String) : String :=
  let name := named (cleaned name.toList)
  -- the extension is read before the stem is changed
  let ext := (splitExt name).2
  String.ofList (shorten (unreserve name) ext)

/-- What a segment has to be at the destination. -/
structure ValidSegment (name : List Char) : Prop where
  nonempty : name ≠ []
  length_le : name.length ≤ segmentMax
  legal : ∀ c ∈ name, c ∉ illegalChars
  dots : ¬ ['.', '.'] <:+: name
  head : ∀ c, name.head? = some c → c ≠ ' ' ∧ c ≠ '.'
  last : ∀ c, name.getLast? = some c → c ≠ ' ' ∧ c ≠ '.'
  vti : ¬ vtiMark <:+: name
  notForbidden : lowerText (String.ofList name) ∉ forbiddenNames
  notReserved : upper (splitExt name).1 ∉ reservedNames

/-- The first character that is no dot is a blank, in a text that does not begin with one. -/
def SpaceBehindDots (text : List Char) : Prop := text.find? (· ≠ '.') = some ' '

/-- The cut of a name that is too long, in front of its extension if it has one. -/
def CutsWell (name ext : List Char) : Prop :=
  if ext = [] then (name.take segmentMax).getLast? ≠ some ' '
  else
    let stem := name.take (segmentMax - 1 - ext.length)
    ext.length + 2 ≤ segmentMax ∧ stem.getLast? ≠ some '.' ∧ upper stem ∉ reservedNames

/-- No blank comes out at an end of the name, and a name that is too long is cut where it can
be. Without an extension the end of such a name is cut off with its blanks. -/
def Sanitizable (text : List Char) : Prop :=
  let name := named (cleaned text)
  let ext := (splitExt name).2
  let long := segmentMax < (unreserve name).length
  ¬ SpaceBehindDots (trimmed text) ∧ (long → CutsWell (unreserve name) ext) ∧
    (long ∧ ext = [] ∨ ¬ SpaceBehindDots (trimmed text).reverse)

/-- What every cleaned name is, whatever blanks stand at its ends. -/
structure Clean (name : List Char) : Prop where
  legal : ∀ c ∈ name, c ∉ illegalChars
  dots : name.IsChain (fun a b => a = '.' → b ≠ '.')
  lines : name.IsChain (Trim ' ' '\n')
  head : name.head? ≠ some '.'
  last : name.getLast? ≠ some '.'
  vti : ¬ vtiMark <:+: name

/-- Two dots side by side are what the regular expression finds. -/
theorem isChain_dots_iff (name : List Char) :
    name.IsChain (fun a b => a = '.' → b ≠ '.') ↔ ¬ ['.', '.'] <:+: name := by
  rw [List.isChain_iff_forall_rel_of_append_cons_cons]
  constructor
  · rintro h ⟨before, after, rfl⟩
    have heq : before ++ ['.', '.'] ++ after = before ++ '.' :: '.' :: after := by
      rw [List.append_assoc]
      rfl
    exact h heq rfl rfl
  · rintro h a b before after rfl rfl rfl
    exact h ⟨before, after, by simp⟩

/-- What a place of `_vti_` becomes: only its last character is another one. -/
def Untied (a b : Char) : Prop := b = a ∨ (a = '_' ∧ b = '-')

theorem Untied.iff {a b c : Char} (h : Untied a b) (hc : c ≠ '_') (hc' : c ≠ '-') :
    b = c ↔ a = c := by
  rcases h with rfl | ⟨rfl, rfl⟩
  · exact Iff.rfl
  · exact ⟨fun h => absurd h.symm hc', fun h => absurd h.symm hc⟩

theorem untied_substitute (text : List Char) :
    List.Forall₂ Untied text (substitute vtiMark vtiBroken 0 text) := by
  have hsame : ∀ a, Untied a a := fun a => Or.inl rfl
  have hmark : List.Forall₂ Untied vtiMark vtiBroken :=
    .cons (hsame _) (.cons (hsame _) (.cons (hsame _) (.cons (hsame _)
      (.cons (Or.inr ⟨rfl, rfl⟩) .nil))))
  exact forall₂_substitute hsame hmark (by decide) text

/-- No replacement makes a new `_vti_` with what stands around it. -/
theorem vti_substitute (text : List Char) :
    ¬ vtiMark <:+: substitute vtiMark vtiBroken 0 text := by
  induction hlen : text.length using Nat.strong_induction_on generalizing text with
  | _ n ih =>
    cases text with
    | nil => decide
    | cons a as =>
      rw [substitute]
      by_cases h : vtiMark <+: a :: as
      · rw [if_pos h, substitute_skip]
        have hrest := ih (as.drop 4).length (by simp at hlen ⊢; omega) (as.drop 4) rfl
        rintro hpart
        apply hrest
        -- it cannot begin within the five characters put in
        have hnot : ∀ (c : Char) (l : List Char), c ≠ '_' →
            vtiMark <:+: c :: l → vtiMark <:+: l := by
          intro c l hc hl
          rcases List.infix_cons_iff.mp hl with ⟨rest, hpre⟩ | hl
          · exact absurd (List.cons.inj hpre).1.symm hc
          · exact hl
        have hfirst : vtiMark <:+: '_' :: 'v' :: 't' :: 'i' :: '-' ::
            substitute vtiMark vtiBroken 0 (as.drop 4) := hpart
        rcases List.infix_cons_iff.mp hfirst with ⟨rest, hpre⟩ | htail
        · have hfifth : some '_' = some '-' := congrArg (fun l : List Char => l[4]?) hpre
          exact absurd hfifth (by decide)
        · exact hnot _ _ (by decide) (hnot _ _ (by decide) (hnot _ _ (by decide)
            (hnot _ _ (by decide) htail)))
      · rw [if_neg h]
        intro hpart
        rcases List.infix_cons_iff.mp hpart with ⟨rest, hpre⟩ | htail
        · -- the four characters before its end were there, and so was the end
          apply h
          obtain ⟨rfl, h₁⟩ := List.cons.inj hpre
          obtain ⟨as₁, rfl, h₂⟩ := substitute_eq_cons (by decide) h₁.symm
          obtain ⟨as₂, rfl, h₃⟩ := substitute_eq_cons (by decide) h₂.symm
          obtain ⟨as₃, rfl, h₄⟩ := substitute_eq_cons (by decide) h₃.symm
          cases as₃ with
          | nil => cases h₄
          | cons b bs =>
            have hb : b = '_' := by
              rw [substitute] at h₄
              split at h₄
              · next hsep =>
                obtain ⟨l, hl⟩ := hsep
                exact (List.cons.inj hl).1.symm
              · exact (List.cons.inj h₄).1.symm
            rw [hb]
            exact ⟨bs, rfl⟩
        · exact ih as.length (by simp at hlen; omega) as rfl htail

theorem trimmed_lines (text : List Char) : (trimmed text).IsChain (Trim ' ' '\n') :=
  isChain_trimLines (by decide) true _

theorem trim_dot_left (a : Char) : Trim ' ' '\n' '.' a :=
  ⟨fun h => absurd h (by decide), fun h => absurd h (by decide)⟩

theorem trim_dot_right (a : Char) : Trim ' ' '\n' a '.' := ⟨fun _ => by decide, fun _ => by decide⟩

theorem trimmed_legal (text : List Char) : ∀ c ∈ trimmed text, c ∉ illegalChars := by
  intro c hc
  rcases mem_squash (mem_trimLines hc) with rfl | ⟨-, hnot⟩
  · decide
  · simpa using hnot

/-- What the dots are stripped from, and what is left of it. -/
def undotted (text : List Char) : List Char :=
  strip (· = '.') (squash (· = '.') '.' (trimmed text))

theorem head_undotted (text : List Char) :
    (undotted text).head? = (trimmed text).find? (· ≠ '.') := by
  have hkept := filter_squash (p := (· = '.')) (c := '.') (by decide) (trimmed text)
  have hfirst := congrArg List.head? hkept
  rw [List.head?_filter, List.head?_filter] at hfirst
  rw [undotted, head_strip, hfirst]
  simp only [decide_not]

theorem last_undotted (text : List Char) :
    (undotted text).getLast? = (trimmed text).reverse.find? (· ≠ '.') := by
  have hkept := filter_squash (p := (· = '.')) (c := '.') (by decide) (trimmed text)
  have hlast := congrArg List.getLast? hkept
  rw [List.getLast?_filter, List.getLast?_filter] at hlast
  rw [undotted, last_strip, hlast]
  simp only [decide_not]

theorem untied_cleaned (text : List Char) : List.Forall₂ Untied (undotted text) (cleaned text) :=
  untied_substitute (undotted text)

/-- A blank comes out at the start of the name. -/
theorem head_cleaned (text : List Char) :
    (cleaned text).head? = some ' ' ↔ SpaceBehindDots (trimmed text) := by
  rw [head_forall₂ (untied_cleaned text) (fun a b h => h.iff (by decide) (by decide)),
    head_undotted]
  exact Iff.rfl

theorem last_cleaned (text : List Char) :
    (cleaned text).getLast? = some ' ' ↔ SpaceBehindDots (trimmed text).reverse := by
  rw [last_forall₂ (untied_cleaned text) (fun a b h => h.iff (by decide) (by decide)),
    last_undotted]
  exact Iff.rfl

theorem clean_cleaned (text : List Char) : Clean (cleaned text) := by
  have huntied := untied_cleaned text
  have hpart : undotted text <:+: squash (· = '.') '.' (trimmed text) := strip_infix _
  refine ⟨?_, ?_, ?_, ?_, ?_, vti_substitute _⟩
  · intro b hb
    obtain ⟨a, ha, hab⟩ := mem_forall₂ huntied hb
    have hlegal : a ∉ illegalChars := by
      rcases mem_squash (hpart.subset ha) with rfl | ⟨hmem, -⟩
      · decide
      · exact trimmed_legal text a hmem
    rcases hab with rfl | ⟨-, rfl⟩
    · exact hlegal
    · decide
  · have hdots : (undotted text).IsChain (fun a b => a = '.' → b ≠ '.') := by
      have hsquash :=
        List.IsChain.infix (isChain_not_squash (p := (· = '.')) (c := '.') (trimmed text)) hpart
      exact hsquash.imp (fun a b h ha => by simpa [ha] using h)
    apply isChain_forall₂ huntied _ hdots
    intro a b a' b' ha hb h ha' hb'
    exact h ((ha.iff (by decide) (by decide)).mp ha') ((hb.iff (by decide) (by decide)).mp hb')
  · have hlines : (undotted text).IsChain (Trim ' ' '\n') := by
      have hsquash := isChain_squash (p := (· = '.')) trim_dot_left trim_dot_right
        (trimmed_lines text)
      exact List.IsChain.infix hsquash hpart
    apply isChain_forall₂ huntied _ hlines
    intro a b a' b' ha hb h
    refine ⟨fun ha' hb' => ?_, fun ha' hb' => ?_⟩
    · exact h.1 ((ha.iff (by decide) (by decide)).mp ha') ((hb.iff (by decide) (by decide)).mp hb')
    · exact h.2 ((ha.iff (by decide) (by decide)).mp ha') ((hb.iff (by decide) (by decide)).mp hb')
  · rw [Ne, head_forall₂ huntied (fun a b h => h.iff (by decide) (by decide)), undotted, head_strip]
    intro hdot
    have hnot := List.find?_some hdot
    simp at hnot
  · rw [Ne, last_forall₂ huntied (fun a b h => h.iff (by decide) (by decide)), undotted, last_strip]
    intro hdot
    have hnot := List.find?_some hdot
    simp at hnot

/-- A cleaned name with no blank at its ends is left as it is. -/
theorem cleaned_eq_self {name : List Char} (h : Clean name) (hhead : name.head? ≠ some ' ')
    (hlast : name.getLast? ≠ some ' ') : cleaned name = name := by
  have hlegal : squash (· ∈ illegalChars) '_' name = name :=
    squash_of_forall (fun a ha => by simpa using h.legal a ha)
  have htrimmed : trimmed name = name := by
    rw [trimmed, hlegal]
    exact trimLines_eq_self h.lines (fun _ => hhead) hlast
  have hdots : squash (· = '.') '.' name = name := by
    apply squash_eq_self (fun a ha => by simpa using ha)
    exact h.dots.imp (fun a b hab ha => by simpa using hab (by simpa using ha))
  have hends : strip (· = '.') name = name := by
    apply strip_eq_self
    · intro a ha
      have hne : a ≠ '.' := fun hdot => h.head (hdot ▸ ha)
      simpa using hne
    · intro a ha
      have hne : a ≠ '.' := fun hdot => h.last (hdot ▸ ha)
      simpa using hne
  rw [cleaned, htrimmed, hdots, hends]
  exact substitute_eq_self h.vti

theorem splitExt_of_notMem {name : List Char} (h : '.' ∉ name) : splitExt name = (name, []) :=
  if_neg h

theorem splitExt_append {stem ext : List Char} (h : '.' ∉ ext) :
    splitExt (stem ++ '.' :: ext) = (stem, ext) := by
  rw [splitExt, if_pos (by simp), rpartition_append h]

/-- A cleaned name has no dot, or one inside. -/
theorem Clean.splitExt_cases {name : List Char} (h : Clean name) :
    '.' ∉ name ∨ ∃ stem ext, name = stem ++ '.' :: ext ∧ stem ≠ [] ∧ ext ≠ [] ∧ '.' ∉ ext := by
  by_cases hdot : '.' ∈ name
  · have heq := rpartition_eq hdot
    refine Or.inr ⟨_, _, heq, ?_, ?_, notMem_rpartition_snd name⟩
    · intro hnil
      apply h.head
      rw [heq, hnil]
      rfl
    · intro hnil
      apply h.last
      rw [heq, hnil, List.getLast?_concat]
  · exact Or.inl hdot

/-- No reserved name has an underscore or a blank. -/
theorem notMem_of_isReserved {name : List Char} (h : isReserved name = true) {c : Char}
    (hc : c = '_' ∨ c = ' ') : c ∉ (splitExt name).1 := by
  intro hmem
  have hreserved : ∀ text ∈ reservedNames, '_' ∉ text.toList ∧ ' ' ∉ text.toList := by
    decide +kernel
  have hforbidden : ∀ text ∈ forbiddenNames, '_' ∉ text.toList ∧ ' ' ∉ text.toList := by
    decide +kernel
  rcases of_decide_eq_true h with hname | hname
  · have hnot := hreserved _ hname
    rw [upper, String.toList_ofList] at hnot
    rcases hc with rfl | rfl
    · exact hnot.1 (List.mem_map.mpr ⟨'_', hmem, by decide⟩)
    · exact hnot.2 (List.mem_map.mpr ⟨' ', hmem, by decide⟩)
  · have hstem : (splitExt name).1 ⊆ name := by
      by_cases hdot : '.' ∈ name
      · intro x hx
        rw [splitExt, if_pos hdot] at hx
        rw [rpartition_eq hdot]
        exact List.mem_append_left _ hx
      · rw [splitExt_of_notMem hdot]
        exact List.Subset.refl _
    have hnot := hforbidden _ hname
    rw [lowerText, String.toList_ofList, String.toList_ofList] at hnot
    rcases hc with rfl | rfl
    · exact hnot.1 (List.mem_map.mpr ⟨'_', hstem hmem, by decide⟩)
    · exact hnot.2 (List.mem_map.mpr ⟨' ', hstem hmem, by decide⟩)

/-- A name that is given another stem: where the underscore comes in. -/
theorem Clean.unreserve_cases {name : List Char} (h : Clean name) (hne : name ≠ [])
    (hreserved : isReserved name = true) :
    ∃ stem ext, splitExt name = (stem, ext) ∧ stem ≠ [] ∧ '_' ∉ stem ∧ ' ' ∉ stem ∧ '.' ∉ ext ∧
      ((ext = [] ∧ name = stem ∧ '.' ∉ stem ∧ unreserve name = stem ++ ['_']) ∨
        (ext ≠ [] ∧ name = stem ++ '.' :: ext ∧ unreserve name = stem ++ ['_'] ++ '.' :: ext)) := by
  have hunder := notMem_of_isReserved hreserved (Or.inl rfl)
  have hblank := notMem_of_isReserved hreserved (Or.inr rfl)
  rcases h.splitExt_cases with hdot | ⟨stem, ext, rfl, hstem, hext, hdot⟩
  · have hsplit := splitExt_of_notMem hdot
    rw [hsplit] at hunder hblank
    refine ⟨name, [], hsplit, hne, hunder, hblank, List.not_mem_nil, Or.inl ⟨rfl, rfl, hdot, ?_⟩⟩
    simp only [unreserve, if_pos hreserved, hsplit, ne_eq, not_true_eq_false, if_false]
  · have hsplit : splitExt (stem ++ '.' :: ext) = (stem, ext) := splitExt_append hdot
    rw [hsplit] at hunder hblank
    refine ⟨stem, ext, hsplit, hstem, hunder, hblank, hdot, Or.inr ⟨hext, rfl, ?_⟩⟩
    simp only [unreserve, if_pos hreserved, hsplit, if_pos hext]

/-- A text of which only one character is an underscore has no `_vti_`. -/
theorem vti_of_notMem {stem : List Char} (h : '_' ∉ stem) : ¬ vtiMark <:+: stem ++ ['_'] := by
  intro hpart
  have hcount := hpart.sublist.count_le '_'
  rw [List.count_append, List.count_eq_zero.mpr h] at hcount
  exact absurd hcount (by decide)

theorem head_unreserve {name : List Char} (h : Clean name) (hne : name ≠ []) :
    (unreserve name).head? = name.head? := by
  by_cases hreserved : isReserved name = true
  · obtain ⟨stem, ext, -, hstem, -, -, -, hcases⟩ := h.unreserve_cases hne hreserved
    obtain ⟨a, as, rfl⟩ := List.exists_cons_of_ne_nil hstem
    rcases hcases with ⟨-, rfl, -, heq⟩ | ⟨-, rfl, heq⟩
    · rw [heq]
      rfl
    · rw [heq]
      rfl
  · rw [unreserve, if_neg hreserved]

theorem last_unreserve {name : List Char} (h : Clean name) (hne : name ≠ []) {c : Char}
    (hc : c = ' ' ∨ c = '.') : (unreserve name).getLast? = some c ↔ name.getLast? = some c := by
  by_cases hreserved : isReserved name = true
  · obtain ⟨stem, ext, -, -, -, hblank, -, hcases⟩ := h.unreserve_cases hne hreserved
    rcases hcases with ⟨-, rfl, hdot, heq⟩ | ⟨hext, rfl, heq⟩
    · have hnot : c ∉ name := by
        rcases hc with rfl | rfl
        · exact hblank
        · exact hdot
      rw [heq, List.getLast?_concat]
      constructor
      · intro hlast
        rcases hc with rfl | rfl <;> exact absurd hlast (by decide)
      · intro hlast
        exact absurd (List.mem_of_getLast? hlast) hnot
    · obtain ⟨a, as, rfl⟩ := List.exists_cons_of_ne_nil hext
      rw [heq, List.getLast?_append_of_ne_nil _ (by simp),
        List.getLast?_append_of_ne_nil _ (by simp)]
  · rw [unreserve, if_neg hreserved]

/-- An element that goes with every neighbour can be put in anywhere. -/
theorem isChain_insert {α : Type*} {R : α → α → Prop} {c : α} (hR : ∀ a b, a = c ∨ b = c → R a b)
    {front back : List α} (h : (front ++ back).IsChain R) : (front ++ c :: back).IsChain R := by
  obtain ⟨hfront, hback, -⟩ := List.isChain_append.mp h
  refine List.isChain_append.mpr ⟨hfront, ?_, fun a _ b hb => ?_⟩
  · exact List.isChain_cons.mpr ⟨fun b _ => hR c b (Or.inl rfl), hback⟩
  · rw [List.head?_cons] at hb
    exact hR a b (Or.inr (Option.mem_some.mp hb).symm)

/-- The name that comes out instead of a reserved one is clean as well. -/
theorem clean_unreserve {name : List Char} (h : Clean name) (hne : name ≠ []) :
    Clean (unreserve name) := by
  have hhead : (unreserve name).head? ≠ some '.' := by
    rw [head_unreserve h hne]
    exact h.head
  have hlast : (unreserve name).getLast? ≠ some '.' := by
    rw [Ne, last_unreserve h hne (Or.inr rfl)]
    exact h.last
  by_cases hreserved : isReserved name = true
  · obtain ⟨stem, ext, -, -, hunder, -, -, hcases⟩ := h.unreserve_cases hne hreserved
    obtain ⟨back, hback, rfl, heq⟩ : ∃ back, (back = [] ∨ back = '.' :: ext) ∧
        name = stem ++ back ∧ unreserve name = stem ++ '_' :: back := by
      rcases hcases with ⟨-, rfl, -, heq⟩ | ⟨-, rfl, heq⟩
      · exact ⟨[], Or.inl rfl, (List.append_nil _).symm, heq⟩
      · exact ⟨'.' :: ext, Or.inr rfl, rfl, heq.trans (by simp)⟩
    have hdots : ∀ a b : Char, a = '_' ∨ b = '_' → a = '.' → b ≠ '.' := by
      rintro a b (rfl | rfl) ha hb
      · exact absurd ha (by decide)
      · exact absurd hb (by decide)
    have hlines : ∀ a b : Char, a = '_' ∨ b = '_' → Trim ' ' '\n' a b := by
      rintro a b (rfl | rfl)
      · exact ⟨fun ha => absurd ha (by decide), fun ha => absurd ha (by decide)⟩
      · exact ⟨fun _ => by decide, fun _ => by decide⟩
    rw [heq] at hhead hlast ⊢
    refine ⟨fun c hc => ?_, isChain_insert hdots h.dots, isChain_insert hlines h.lines, hhead,
      hlast, fun hpart => ?_⟩
    · rcases List.mem_append.mp hc with hc | hc
      · exact h.legal c (List.mem_append_left _ hc)
      · rcases List.mem_cons.mp hc with rfl | hc
        · decide
        · exact h.legal c (List.mem_append_right _ hc)
    · -- the new underscore is the only one before the extension
      rcases hback with rfl | rfl
      · exact vti_of_notMem hunder hpart
      · rw [List.append_cons] at hpart
        rcases infix_of_notMem (by decide) hpart with hfirst | hsecond
        · exact vti_of_notMem hunder hfirst
        · have hright : '.' :: ext <:+: stem ++ '.' :: ext := (List.suffix_append _ _).isInfix
          exact h.vti (hsecond.trans ((List.suffix_cons _ _).isInfix.trans hright))
  · rw [unreserve, if_neg hreserved]
    exact h

/-- It is not reserved again, and has the extension that the name had. -/
theorem unreserve_unreserved {name : List Char} (h : Clean name) (hne : name ≠ []) :
    isReserved (unreserve name) = false ∧ (splitExt (unreserve name)).2 = (splitExt name).2 := by
  by_cases hreserved : isReserved name = true
  · obtain ⟨stem, ext, hsplit, -, hunder, -, hdot, hcases⟩ := h.unreserve_cases hne hreserved
    have hsplit' : splitExt (unreserve name) = (stem ++ ['_'], ext) := by
      rcases hcases with ⟨rfl, rfl, hstem, heq⟩ | ⟨-, rfl, heq⟩
      · rw [heq]
        exact splitExt_of_notMem (by simpa using hstem)
      · rw [heq]
        exact splitExt_append hdot
    refine ⟨?_, by rw [hsplit', hsplit]⟩
    by_contra hagain
    have hnot := notMem_of_isReserved (by simpa using hagain) (Or.inl rfl)
    rw [hsplit'] at hnot
    exact hnot (by simp)
  · rw [unreserve, if_neg hreserved]
    exact ⟨by simpa using hreserved, rfl⟩

/-- Reserved names are short. -/
theorem upper_notMem {stem : List Char} (h : 4 < stem.length) : upper stem ∉ reservedNames := by
  intro hmem
  have hshort : ∀ text ∈ reservedNames, text.toList.length ≤ 4 := by decide +kernel
  have hle := hshort _ hmem
  rw [upper, String.toList_ofList, List.length_map] at hle
  omega

theorem lower_notMem {name : List Char} (h : 11 < name.length) :
    lowerText (String.ofList name) ∉ forbiddenNames := by
  intro hmem
  have hshort : ∀ text ∈ forbiddenNames, text.toList.length ≤ 11 := by decide +kernel
  have hle := hshort _ hmem
  rw [lowerText, String.toList_ofList, String.toList_ofList, List.length_map] at hle
  omega

theorem isReserved_eq_false {name : List Char} :
    isReserved name = false ↔
      upper (splitExt name).1 ∉ reservedNames ∧
      lowerText (String.ofList name) ∉ forbiddenNames := by
  simp [isReserved]

/-- A clean name is valid if no blank stands at an end, it is short enough and not reserved. -/
theorem Clean.valid_iff {name : List Char} (h : Clean name) (hne : name ≠ [])
    (hlen : name.length ≤ segmentMax) (hreserved : isReserved name = false) :
    ValidSegment name ↔ name.head? ≠ some ' ' ∧ name.getLast? ≠ some ' ' := by
  constructor
  · intro hvalid
    exact ⟨fun hhead => (hvalid.head _ hhead).1 rfl, fun hlast => (hvalid.last _ hlast).1 rfl⟩
  · rintro ⟨hhead, hlast⟩
    obtain ⟨hstem, hname⟩ := isReserved_eq_false.mp hreserved
    exact ⟨hne, hlen, h.legal, (isChain_dots_iff name).mp h.dots,
      fun c hc => ⟨fun heq => hhead (heq ▸ hc), fun heq => h.head (heq ▸ hc)⟩,
      fun c hc => ⟨fun heq => hlast (heq ▸ hc), fun heq => h.last (heq ▸ hc)⟩, h.vti, hname, hstem⟩

/-- A front of a clean name with an extension of it, put together at a dot. -/
theorem Clean.front_back {name front ext : List Char} (h : Clean name) (hstart : front <+: name)
    (hsuffix : '.' :: ext <:+ name) (hne : front ≠ []) (hends : front.getLast? ≠ some '.') :
    Clean (front ++ '.' :: ext) := by
  refine ⟨?_, ?_, ?_, ?_, ?_, ?_⟩
  · intro c hc
    rcases List.mem_append.mp hc with hc | hc
    · exact h.legal c (hstart.subset hc)
    · exact h.legal c (hsuffix.subset hc)
  · apply isChain_front_back h.dots hstart hsuffix
    intro a ha b _ hdot'
    exact absurd (hdot' ▸ ha) hends
  · apply isChain_front_back h.lines hstart hsuffix
    intro a _ b hb
    rw [List.head?_cons] at hb
    exact (Option.mem_some.mp hb) ▸ trim_dot_right a
  · obtain ⟨rest, hname⟩ := hstart
    have hhead := h.head
    rw [← hname, List.head?_append_of_ne_nil _ hne] at hhead
    rwa [List.head?_append_of_ne_nil _ hne]
  · obtain ⟨rest, hname⟩ := hsuffix
    have hlast := h.last
    rw [← hname, List.getLast?_append_of_ne_nil _ (List.cons_ne_nil _ _)] at hlast
    rwa [List.getLast?_append_of_ne_nil _ (List.cons_ne_nil _ _)]
  · intro hvti
    rcases infix_of_notMem (by decide) hvti with hfirst | hsecond
    · exact h.vti (hfirst.trans hstart.isInfix)
    · exact h.vti (hsecond.trans ((List.suffix_cons _ _).isInfix.trans hsuffix.isInfix))

section cut

variable {name : List Char} (h : Clean name) (hlong : segmentMax < name.length)
include h hlong

/-- A cut name without an extension: the blank that may be in the way is the last one kept. -/
theorem valid_take_iff (hext : (splitExt name).2 = []) :
    ValidSegment (name.take segmentMax) ↔
      name.head? ≠ some ' ' ∧ (name.take segmentMax).getLast? ≠ some ' ' := by
  have hdot : '.' ∉ name := by
    rcases h.splitExt_cases with hdot | ⟨stem, ext, rfl, -, hne, hdot⟩
    · exact hdot
    · rw [splitExt_append hdot] at hext
      exact absurd hext hne
  have hstart : name.take segmentMax <+: name := List.take_prefix _ _
  have hlen : (name.take segmentMax).length = segmentMax := by
    rw [List.length_take]
    omega
  have hhead : (name.take segmentMax).head? = name.head? := by
    rw [List.head?_take, if_neg (by decide)]
  have hclean : Clean (name.take segmentMax) := by
    refine ⟨fun c hc => h.legal c (hstart.subset hc), List.IsChain.prefix h.dots hstart,
      List.IsChain.prefix h.lines hstart, ?_, ?_, fun hvti => h.vti (hvti.trans hstart.isInfix)⟩
    · rw [hhead]
      exact h.head
    · intro hlast
      exact hdot (hstart.subset (List.mem_of_getLast? hlast))
  have hstem : splitExt (name.take segmentMax) = (name.take segmentMax, []) :=
    splitExt_of_notMem (fun hmem => hdot (hstart.subset hmem))
  have hmax : 11 < (name.take segmentMax).length := by
    rw [hlen]
    decide
  have hreserved : isReserved (name.take segmentMax) = false := by
    rw [isReserved_eq_false, hstem]
    exact ⟨upper_notMem (lt_trans (by decide) hmax), lower_notMem hmax⟩
  have hne : name.take segmentMax ≠ [] := List.ne_nil_of_length_pos (by omega)
  rw [hclean.valid_iff hne hlen.le hreserved, hhead]

/-- A cut name with an extension that leaves room for a character of the stem. -/
theorem valid_cut_iff {stem ext : List Char} (hname : name = stem ++ '.' :: ext)
    (hdot : '.' ∉ ext) (hroom : ext.length + 2 ≤ segmentMax) :
    ValidSegment (name.take (segmentMax - 1 - ext.length) ++ '.' :: ext) ↔
      name.head? ≠ some ' ' ∧ name.getLast? ≠ some ' ' ∧
        (name.take (segmentMax - 1 - ext.length)).getLast? ≠ some '.' ∧
        upper (name.take (segmentMax - 1 - ext.length)) ∉ reservedNames := by
  set cut := name.take (segmentMax - 1 - ext.length) with hcut
  have hstart : cut <+: name := List.take_prefix _ _
  have hcutLen : cut.length = segmentMax - 1 - ext.length := by
    rw [hcut, List.length_take]
    omega
  have hcutNe : cut ≠ [] := List.ne_nil_of_length_pos (by omega)
  have hsuffix : '.' :: ext <:+ name := by
    rw [hname]
    exact List.suffix_append _ _
  have hhead : (cut ++ '.' :: ext).head? = name.head? := by
    rw [List.head?_append_of_ne_nil _ hcutNe, hcut, List.head?_take, if_neg (by omega)]
  have hlast : (cut ++ '.' :: ext).getLast? = name.getLast? := by
    rw [hname, List.getLast?_append_of_ne_nil _ (by simp),
      List.getLast?_append_of_ne_nil _ (by simp)]
  have hlen : (cut ++ '.' :: ext).length = segmentMax := by
    rw [List.length_append, hcutLen, List.length_cons]
    omega
  by_cases hends : cut.getLast? = some '.'
  · -- the cut is at a dot, which then stands beside the one of the extension
    have hinvalid : ¬ ValidSegment (cut ++ '.' :: ext) := by
      intro hvalid
      apply hvalid.dots
      obtain ⟨init, hinit⟩ := List.getLast?_eq_some_iff.mp hends
      exact ⟨init, ext, by simp [hinit]⟩
    simp only [hinvalid, hends, ne_eq, not_true_eq_false, false_and, and_false]
  · have hclean : Clean (cut ++ '.' :: ext) := h.front_back hstart hsuffix hcutNe hends
    have hsplit : splitExt (cut ++ '.' :: ext) = (cut, ext) := splitExt_append hdot
    by_cases hupper : upper cut ∈ reservedNames
    · have hinvalid : ¬ ValidSegment (cut ++ '.' :: ext) := by
        intro hvalid
        have hnot := hvalid.notReserved
        rw [hsplit] at hnot
        exact hnot hupper
      simp only [hinvalid, hupper, not_true_eq_false, and_false]
    · have hreserved : isReserved (cut ++ '.' :: ext) = false := by
        rw [isReserved_eq_false, hsplit]
        refine ⟨hupper, lower_notMem ?_⟩
        rw [hlen]
        decide
      rw [hclean.valid_iff (by simp) hlen.le hreserved, hhead, hlast]
      simp only [hends, hupper, ne_eq, not_false_eq_true, and_true]

end cut

/-- An extension that fills the name, or more, is put behind nothing or behind too much. -/
theorem not_valid_cut {stem ext : List Char} (hstem : stem ≠ [])
    (hroom : segmentMax < ext.length + 2) :
    ¬ ValidSegment (sliceTo (stem ++ '.' :: ext) ((segmentMax : ℤ) - ext.length - 1) ++
      '.' :: ext) := by
  intro hvalid
  have hpos : 0 < stem.length := List.length_pos_iff.mpr hstem
  by_cases hstop : (0 : ℤ) ≤ (segmentMax : ℤ) - ext.length - 1
  · have hzero : ((segmentMax : ℤ) - ext.length - 1).toNat = 0 := by omega
    rw [sliceTo, if_pos hstop, hzero, List.take_zero, List.nil_append] at hvalid
    exact (hvalid.head _ rfl).2 rfl
  · have hlen := hvalid.length_le
    rw [sliceTo, if_neg hstop, List.length_append, List.length_take, List.length_append,
      List.length_cons] at hlen
    omega

/-- The lines of a name stay trimmed whatever is cut off. -/
theorem lines_shorten {name : List Char} (h : name.IsChain (Trim ' ' '\n')) {ext : List Char}
    (hext : ext = [] ∨ '.' :: ext <:+ name) : (shorten name ext).IsChain (Trim ' ' '\n') := by
  have hslice : ∀ stop, sliceTo name stop <+: name := by
    intro stop
    unfold sliceTo
    split <;> exact List.take_prefix _ _
  unfold shorten
  split
  · split
    · next hne =>
      apply isChain_front_back h (hslice _) (hext.resolve_left hne)
      intro a _ b hb
      rw [List.head?_cons] at hb
      exact (Option.mem_some.mp hb) ▸ trim_dot_right a
    · exact List.IsChain.prefix h (List.take_prefix _ _)
  · exact h

/-- When the last edit of a clean name that is not reserved gives a valid one. -/
theorem Clean.valid_shorten_iff {name : List Char} (h : Clean name) (hne : name ≠ [])
    (hreserved : isReserved name = false) :
    ValidSegment (shorten name (splitExt name).2) ↔
      name.head? ≠ some ' ' ∧ (segmentMax < name.length → CutsWell name (splitExt name).2) ∧
        (segmentMax < name.length ∧ (splitExt name).2 = [] ∨ name.getLast? ≠ some ' ') := by
  unfold shorten
  by_cases hlong : segmentMax < name.length
  · rw [if_pos hlong]
    by_cases hext : (splitExt name).2 = []
    · rw [if_neg (not_not.mpr hext), valid_take_iff h hlong hext, CutsWell, if_pos hext]
      simp only [hlong, hext, true_or, and_true, true_imp_iff]
    · obtain ⟨stem, ext, hname, hstem, hne', hdot⟩ := h.splitExt_cases.resolve_left
        (fun hdot => hext (congrArg Prod.snd (splitExt_of_notMem hdot)))
      have hsplit : (splitExt name).2 = ext := by rw [hname, splitExt_append hdot]
      rw [hsplit, if_pos hne', CutsWell, if_neg hne']
      by_cases hroom : ext.length + 2 ≤ segmentMax
      · have hstop : (0 : ℤ) ≤ (segmentMax : ℤ) - ext.length - 1 := by omega
        have hnat : ((segmentMax : ℤ) - ext.length - 1).toNat = segmentMax - 1 - ext.length := by
          omega
        rw [sliceTo, if_pos hstop, hnat, valid_cut_iff h hlong hname hdot hroom]
        simp only [hlong, hne', hroom, true_and, true_imp_iff, and_false, false_or]
        tauto
      · have hinvalid := not_valid_cut hstem (Nat.not_le.mp hroom)
        rw [← hname] at hinvalid
        simp only [hinvalid, hroom, false_and, imp_false, hlong, not_true_eq_false, and_false]
  · rw [if_neg hlong, h.valid_iff hne (Nat.le_of_not_lt hlong) hreserved]
    simp only [hlong, false_and, false_or, false_imp_iff, true_and]

theorem clean_named (text : List Char) :
    Clean (named (cleaned text)) ∧ named (cleaned text) ≠ [] ∧
      ((named (cleaned text)).head? = some ' ' ↔ SpaceBehindDots (trimmed text)) ∧
      ((named (cleaned text)).getLast? = some ' ' ↔ SpaceBehindDots (trimmed text).reverse) := by
  have hhead := head_cleaned text
  have hlast := last_cleaned text
  by_cases hnil : cleaned text = []
  · rw [hnil] at hhead hlast
    rw [named, if_pos hnil, ← hhead, ← hlast]
    refine ⟨⟨?_, ?_, ?_, by decide, by decide, by decide⟩, by decide, by decide, by decide⟩
    · simp [illegalChars]
    · simp
    · simp [Trim]
  · rw [named, if_neg hnil]
    exact ⟨clean_cleaned text, hnil, hhead, hlast⟩

/-- A valid name with trimmed lines is left as it is. -/
theorem sanitizeSegment_eq_self {name : List Char} (h : ValidSegment name)
    (hlines : name.IsChain (Trim ' ' '\n')) :
    sanitizeSegment (String.ofList name) = String.ofList name := by
  have hclean : Clean name := ⟨h.legal, (isChain_dots_iff name).mpr h.dots, hlines,
    fun hhead => (h.head _ hhead).2 rfl, fun hlast => (h.last _ hlast).2 rfl, h.vti⟩
  have hcleaned := cleaned_eq_self hclean (fun hhead => (h.head _ hhead).1 rfl)
    (fun hlast => (h.last _ hlast).1 rfl)
  have hreserved : isReserved name = false :=
    isReserved_eq_false.mpr ⟨h.notReserved, h.notForbidden⟩
  have hunreserve : unreserve name = name := by
    rw [unreserve, if_neg (by rw [hreserved]; exact Bool.false_ne_true)]
  simp only [sanitizeSegment, String.toList_ofList, hcleaned, named, if_neg h.nonempty, hunreserve,
    shorten, if_neg h.length_le.not_gt]

/-- A segment comes out valid, and stays as it is from then on, exactly when no blank comes out
at an end of it and one that is too long is cut where it can be. -/
theorem sanitizeSegment_iff (text : String) :
    (ValidSegment (sanitizeSegment text).toList ∧
        sanitizeSegment (sanitizeSegment text) = sanitizeSegment text) ↔
      Sanitizable text.toList := by
  obtain ⟨hclean, hne, hhead, hlast⟩ := clean_named text.toList
  set name := named (cleaned text.toList) with hname
  obtain ⟨hreserved, hext⟩ := unreserve_unreserved hclean hne
  have hclean' := clean_unreserve hclean hne
  have hne' : unreserve name ≠ [] := by
    intro hnil
    have hsame := head_unreserve hclean hne
    rw [hnil] at hsame
    exact hne (List.head?_eq_none_iff.mp hsame.symm)
  have hresult : (sanitizeSegment text).toList = shorten (unreserve name) (splitExt name).2 := by
    simp only [sanitizeSegment, ← hname, String.toList_ofList]
  have hvalid : ValidSegment (sanitizeSegment text).toList ↔ Sanitizable text.toList := by
    have hiff := hclean'.valid_shorten_iff hne' hreserved
    rw [hext, head_unreserve hclean hne, Ne, Ne, last_unreserve hclean hne (Or.inl rfl), hhead,
      hlast] at hiff
    rw [hresult]
    exact hiff
  rw [← hvalid]
  refine and_iff_left_of_imp (fun h => ?_)
  have hlines : (sanitizeSegment text).toList.IsChain (Trim ' ' '\n') := by
    rw [hresult]
    apply lines_shorten hclean'.lines
    rw [← hext]
    rcases hclean'.splitExt_cases with hdot | ⟨stem, ext, heq, -, -, hdot⟩
    · exact Or.inl (congrArg Prod.snd (splitExt_of_notMem hdot))
    · refine Or.inr ⟨stem, ?_⟩
      rw [heq, splitExt_append hdot]
  have hself := sanitizeSegment_eq_self h hlines
  rwa [String.ofList_toList] at hself

/-- A blank behind a dot is what the name then begins with. -/
theorem dot_blank_exposed : ¬ ∀ text : String, ValidSegment (sanitizeSegment text).toList ∧
    sanitizeSegment (sanitizeSegment text) = sanitizeSegment text := by
  intro h
  have hblank : (sanitizeSegment ". a").toList.head? = some ' ' := by decide +kernel
  exact ((h ". a").1.head _ hblank).1 rfl

end GwsMigrator
