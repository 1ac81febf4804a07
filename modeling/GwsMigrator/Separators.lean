import Mathlib.Data.List.Infix

/-! Lists cut at a separator and joined with another one, as `str.split`, `str.replace` and
`str.join` do it: leftmost separator first, and none inside another. -/
namespace GwsMigrator.Separators

variable {α : Type*}

/-- Two pieces or more are joined with the separator between them. -/
theorem mem_intercalate (c : α) {pieces : List (List α)} (h : 2 ≤ pieces.length) :
    c ∈ [c].intercalate pieces := by
  match pieces, h with
  | first :: second :: rest, _ =>
    rw [List.intercalate_cons_cons]
    simp

/-- What a piece holds the joined list holds. -/
theorem mem_intercalate_of_mem {sep piece : List α} {pieces : List (List α)} {a : α}
    (hpiece : piece ∈ pieces) (ha : a ∈ piece) : a ∈ sep.intercalate pieces := by
  induction pieces with
  | nil => cases hpiece
  | cons first rest ih =>
    cases rest with
    | nil =>
      rw [List.intercalate_singleton]
      exact List.mem_singleton.mp hpiece ▸ ha
    | cons second rest =>
      rw [List.intercalate_cons_cons, List.append_assoc]
      rcases List.mem_cons.mp hpiece with rfl | hrest
      · exact List.mem_append_left _ ha
      · exact List.mem_append_right _ (List.mem_append_right _ (ih hrest))

/-- A joined text is its first piece, and the separator if anything follows. -/
theorem intercalate_cons_eq_append (c : α) (first : List α) (rest : List (List α)) :
    ∃ tail, [c].intercalate (first :: rest) = first ++ tail ∧ ∀ a ∈ tail.head?, a = c := by
  cases rest with
  | nil => exact ⟨[], by rw [List.intercalate_singleton, List.append_nil], by simp⟩
  | cons second rest =>
    refine ⟨c :: [c].intercalate (second :: rest), ?_, by simp⟩
    rw [List.intercalate_cons_cons, List.append_assoc]
    rfl

/-- What a joined text holds is in the separator or in a piece. -/
theorem of_mem_intercalate {sep : List α} {a : α} {pieces : List (List α)}
    (h : a ∈ sep.intercalate pieces) : a ∈ sep ∨ ∃ piece ∈ pieces, a ∈ piece := by
  induction pieces with
  | nil => simp at h
  | cons first rest ih =>
    cases rest with
    | nil =>
      rw [List.intercalate_singleton] at h
      exact Or.inr ⟨first, List.mem_cons_self, h⟩
    | cons second rest =>
      rw [List.intercalate_cons_cons, List.mem_append, List.mem_append] at h
      rcases h with (hfirst | hsep) | hrest
      · exact Or.inr ⟨first, List.mem_cons_self, hfirst⟩
      · exact Or.inl hsep
      · rcases ih hrest with hsep | ⟨piece, hpiece, ha⟩
        · exact Or.inl hsep
        · exact Or.inr ⟨piece, List.mem_cons_of_mem first hpiece, ha⟩

/-- The last separator cuts a text in one way only. -/
theorem append_cons_inj_of_last {c : α} {front front' last last' : List α} (h : c ∉ last)
    (h' : c ∉ last') : front ++ c :: last = front' ++ c :: last' ↔ front = front' ∧ last = last' := by
  constructor
  · intro heq
    obtain ⟨between, hfront, hlast⟩ | ⟨between, hfront, hlast⟩ := List.append_eq_append_iff.mp heq
    · cases between with
      | nil => exact ⟨by simpa using hfront.symm, (List.cons.inj hlast).2⟩
      | cons a between =>
        -- the separator of the second text would be in the end of the first
        rw [List.cons_append, List.cons.injEq] at hlast
        exact absurd (hlast.2 ▸ List.mem_append_right between List.mem_cons_self) h
    · cases between with
      | nil => exact ⟨by simpa using hfront, (List.cons.inj hlast).2.symm⟩
      | cons a between =>
        rw [List.cons_append, List.cons.injEq] at hlast
        exact absurd (hlast.2 ▸ List.mem_append_right between List.mem_cons_self) h'
  · rintro ⟨rfl, rfl⟩
    rfl

/-- What is found around a separator that it does not hold lies on one side of it. -/
theorem infix_append_cons {part front rest : List α} {c : α} (hc : c ∉ part)
    (h : part <:+: front ++ c :: rest) : part <:+: front ∨ part <:+: rest := by
  induction front with
  | nil =>
    rw [List.nil_append, List.infix_cons_iff] at h
    rcases h with hprefixed | hinfix
    · -- it would begin with the separator
      cases part with
      | nil => exact Or.inl (List.nil_infix)
      | cons a part =>
        obtain ⟨rfl, -⟩ := List.cons_prefix_cons.mp hprefixed
        exact absurd List.mem_cons_self hc
    · exact Or.inr hinfix
  | cons a front ih =>
    rw [List.cons_append, List.infix_cons_iff] at h
    rcases h with hprefixed | hinfix
    · left
      apply List.IsPrefix.isInfix
      have hfront : a :: front <+: a :: (front ++ c :: rest) := ⟨c :: rest, rfl⟩
      by_cases hlength : part.length ≤ (a :: front).length
      · exact List.prefix_of_prefix_length_le hprefixed hfront hlength
      · have hwhole : (a :: front) ++ [c] <+: a :: (front ++ c :: rest) := ⟨rest, by simp⟩
        have hlonger : (a :: front) ++ [c] <+: part := by
          apply List.prefix_of_prefix_length_le hwhole hprefixed
          rw [List.length_append, List.length_singleton]
          omega
        exact absurd (hlonger.subset (by simp)) hc
    · rcases ih hinfix with hfront | hrest
      · exact Or.inl (hfront.trans (List.infix_cons (List.infix_refl front)))
      · exact Or.inr hrest

theorem infix_intercalate {part : List α} {c : α} (hc : c ∉ part) (hne : part ≠ [])
    (pieces : List (List α)) :
    part <:+: [c].intercalate pieces ↔ ∃ piece ∈ pieces, part <:+: piece := by
  induction pieces with
  | nil => simp [hne]
  | cons first rest ih =>
    cases rest with
    | nil => simp
    | cons second rest =>
      rw [List.intercalate_cons_cons, List.append_assoc, List.singleton_append,
        List.exists_mem_cons_iff, ← ih]
      constructor
      · exact fun h => infix_append_cons hc h
      · rintro (hfirst | hrest)
        · exact List.infix_append_of_infix_left hfirst
        · exact List.infix_append_of_infix_right (List.infix_cons hrest)

variable [DecidableEq α] (sep new : List α)

/-- The pieces between the separators; `skip` elements of a separator are still to be passed. -/
def cut : ℕ → List α → List (List α)
  | _, [] => [[]]
  | skip + 1, _ :: as => cut skip as
  | 0, a :: as =>
    if sep <+: a :: as then [] :: cut (sep.length - 1) as
    else (cut 0 as).modifyHead (a :: ·)

/-- Every separator replaced. -/
def substitute : ℕ → List α → List α
  | _, [] => []
  | skip + 1, _ :: as => substitute skip as
  | 0, a :: as =>
    if sep <+: a :: as then new ++ substitute (sep.length - 1) as
    else a :: substitute 0 as

theorem cut_ne_nil (skip : ℕ) (as : List α) : cut sep skip as ≠ [] := by
  induction as generalizing skip with
  | nil => simp [cut]
  | cons a as ih =>
    cases skip with
    | succ skip => exact ih skip
    | zero =>
      rw [cut]
      split
      · simp
      · intro h
        apply ih 0
        simpa using congrArg List.length h

/-- Replacing is cutting and joining again. -/
theorem intercalate_cut (skip : ℕ) (as : List α) :
    new.intercalate (cut sep skip as) = substitute sep new skip as := by
  induction as generalizing skip with
  | nil => simp [cut, substitute]
  | cons a as ih =>
    cases skip with
    | succ skip => exact ih skip
    | zero =>
      rw [cut, substitute]
      by_cases h : sep <+: a :: as
      · rw [if_pos h, if_pos h, List.intercalate_cons_of_ne_nil (cut_ne_nil sep _ as), ih]
        rfl
      · rw [if_neg h, if_neg h, ← ih 0]
        cases hcut : cut sep 0 as with
        | nil => exact absurd hcut (cut_ne_nil sep 0 as)
        | cons piece pieces => exact List.intercalate_cons_cons_left

/-- The pieces with the separators between them are the list again. -/
theorem intercalate_cut_self (hsep : sep ≠ []) (skip : ℕ) (as : List α) :
    sep.intercalate (cut sep skip as) = as.drop skip := by
  induction as generalizing skip with
  | nil => simp [cut]
  | cons a as ih =>
    cases skip with
    | succ skip => exact ih skip
    | zero =>
      rw [cut, List.drop_zero]
      by_cases h : sep <+: a :: as
      · obtain ⟨c, tail, rfl⟩ := List.exists_cons_of_ne_nil hsep
        obtain ⟨rfl, hprefix⟩ := List.cons_prefix_cons.mp h
        obtain ⟨rest, rfl⟩ := hprefix
        rw [if_pos h, List.intercalate_cons_of_ne_nil (cut_ne_nil _ _ _), ih, List.length_cons,
          Nat.add_sub_cancel, List.drop_left]
        rfl
      · rw [if_neg h]
        have hrest := ih 0
        rw [List.drop_zero] at hrest
        cases hcut : cut sep 0 as with
        | nil => exact absurd hcut (cut_ne_nil sep 0 as)
        | cons piece pieces =>
          rw [hcut] at hrest
          rw [← hrest]
          exact List.intercalate_cons_cons_left

/-- A separator of one element cuts as `List.splitOn` does. -/
theorem cut_singleton (c : α) (as : List α) : cut [c] 0 as = as.splitOn c := by
  induction as with
  | nil => simp [cut]
  | cons a as ih =>
    rw [cut, List.splitOn_cons_eq_if_modifyHead, ← ih]
    by_cases h : a = c
    · subst h
      simp
    · have hne : ¬ [c] <+: a :: as := by
        rintro ⟨rest, hrest⟩
        exact h (List.cons.inj hrest).1.symm
      simp [h, hne]

/-- A list without the separator is left in one piece. -/
theorem cut_of_not_infix {as : List α} (h : ¬ sep <:+: as) : cut sep 0 as = [as] := by
  induction as with
  | nil => rfl
  | cons a as ih =>
    have hprefix : ¬ sep <+: a :: as := fun hp => h hp.isInfix
    have htail : ¬ sep <:+: as := fun hi => h (hi.trans (List.suffix_cons a as).isInfix)
    rw [cut, if_neg hprefix, ih htail]
    rfl

/-- A list with the separator is not. -/
theorem two_le_length_cut {as : List α} (hsep : sep ≠ []) (h : sep <:+: as) :
    2 ≤ (cut sep 0 as).length := by
  induction as with
  | nil => exact absurd (List.infix_nil.mp h) hsep
  | cons a as ih =>
    rw [cut]
    by_cases hp : sep <+: a :: as
    · have hpos : 0 < (cut sep (sep.length - 1) as).length :=
        List.length_pos_iff.mpr (cut_ne_nil sep _ as)
      rw [if_pos hp, List.length_cons]
      omega
    · rw [if_neg hp, List.length_modifyHead]
      apply ih
      exact (List.infix_cons_iff.mp h).resolve_left hp

theorem cut_skip (skipped as : List α) : cut sep skipped.length (skipped ++ as) = cut sep 0 as := by
  induction skipped with
  | nil => rfl
  | cons a skipped ih => exact ih

/-- A separator does not begin inside a piece without its first element. -/
theorem cut_append {c : α} {piece : List α} (h : c ∉ piece) (rest : List α) :
    cut (c :: sep) 0 (piece ++ rest) = (cut (c :: sep) 0 rest).modifyHead (piece ++ ·) := by
  induction piece with
  | nil =>
    have hid : (fun as : List α => [] ++ as) = id := rfl
    rw [hid, List.modifyHead_id]
    rfl
  | cons a piece ih =>
    obtain ⟨ha, hpiece⟩ := not_or.mp (mt List.mem_cons.mpr h)
    have hprefix : ¬ c :: sep <+: a :: (piece ++ rest) := by
      rintro ⟨tail, htail⟩
      exact ha (List.cons.inj htail).1
    rw [List.cons_append, cut, if_neg hprefix, ih hpiece, List.modifyHead_modifyHead]
    rfl

/-- The pieces of a list joined by a separator whose first element none of them holds. -/
theorem cut_intercalate {c : α} {pieces : List (List α)} (hne : pieces ≠ [])
    (h : ∀ piece ∈ pieces, c ∉ piece) :
    cut (c :: sep) 0 ((c :: sep).intercalate pieces) = pieces := by
  induction pieces with
  | nil => exact absurd rfl hne
  | cons piece pieces ih =>
    obtain ⟨hpiece, hpieces⟩ := List.forall_mem_cons.mp h
    cases pieces with
    | nil =>
      have hcut := cut_append sep hpiece []
      rw [List.append_nil] at hcut
      rw [List.intercalate_singleton, hcut, cut, List.modifyHead_cons, List.append_nil]
    | cons second pieces =>
      have hrest := ih (List.cons_ne_nil _ _) hpieces
      rw [List.intercalate_cons_cons, List.append_assoc, cut_append sep hpiece, List.cons_append,
        cut, if_pos (List.cons_prefix_cons.mpr ⟨rfl, List.prefix_append _ _⟩), List.length_cons,
        Nat.add_sub_cancel, cut_skip, hrest, List.modifyHead_cons, List.append_nil]

/-- How often an element is in a joined list. -/
theorem count_intercalate (a : α) {pieces : List (List α)} (hne : pieces ≠ []) :
    (sep.intercalate pieces).count a + sep.count a =
      pieces.flatten.count a + pieces.length * sep.count a := by
  induction pieces with
  | nil => exact absurd rfl hne
  | cons piece pieces ih =>
    cases pieces with
    | nil => simp
    | cons second pieces =>
      have hrest := ih (List.cons_ne_nil _ _)
      rw [List.intercalate_cons_cons, List.count_append, List.count_append, List.flatten_cons,
        List.count_append, List.length_cons, Nat.succ_mul]
      omega

/-- No piece of a split holds the element it is split at. -/
theorem notMem_of_mem_splitOn (c : α) (as : List α) : ∀ piece ∈ as.splitOn c, c ∉ piece := by
  induction as with
  | nil => simp
  | cons a as ih =>
    rw [List.splitOn_cons_eq_if_modifyHead]
    by_cases h : a = c
    · subst h
      simpa using ih
    · have hne : (a == c) = false := by simpa using h
      rw [hne]
      cases hsplit : as.splitOn c with
      | nil => simp
      | cons piece pieces =>
        rw [hsplit] at ih
        obtain ⟨hpiece, hpieces⟩ := List.forall_mem_cons.mp ih
        refine List.forall_mem_cons.mpr ⟨?_, hpieces⟩
        rw [List.mem_cons, not_or]
        exact ⟨Ne.symm h, hpiece⟩

/-- Joining at `c` and splitting again gives the pieces back exactly when none holds `c`. -/
theorem splitOn_intercalate_iff (c : α) {pieces : List (List α)} (hne : pieces ≠ []) :
    ([c].intercalate pieces).splitOn c = pieces ↔ ∀ piece ∈ pieces, c ∉ piece := by
  constructor
  · intro h piece hpiece
    rw [← h] at hpiece
    exact notMem_of_mem_splitOn c _ piece hpiece
  · exact fun h => List.splitOn_intercalate c h hne

section text

/-- `text.split(sep)`, for a separator that is not empty. -/
def splitText (text sep : String) : List String :=
  (cut sep.toList 0 text.toList).map String.ofList

/-- `text.replace(old, new)`, for an `old` that is not empty. -/
def replaceText (text old new : String) : String :=
  String.ofList (substitute old.toList new.toList 0 text.toList)

/-- `text.lower()`, as far as it says which text in ASCII comes out: of the letters beyond ASCII
only the Kelvin sign becomes one of ASCII. -/
def lowerText (text : String) : String :=
  String.ofList (text.toList.map (fun c => if c = Char.ofNat 0x212A then 'k' else c.toLower))

/-- Replacing is splitting and joining again. -/
theorem replaceText_eq (text old new : String) :
    replaceText text old new = new.intercalate (splitText text old) := by
  apply String.toList_inj.mp
  rw [replaceText, splitText, String.toList_ofList, String.toList_intercalate, List.map_map,
    ← intercalate_cut]
  congr 1
  have hid : String.toList ∘ String.ofList = id := by
    funext l
    exact String.toList_ofList
  rw [hid, List.map_id]

/-- The pieces of a text joined by a separator whose first character none of them holds. -/
theorem splitText_intercalate {c : Char} {tail : List Char} {sep : String}
    (hsep : sep.toList = c :: tail) {pieces : List String} (hne : pieces ≠ [])
    (h : ∀ piece ∈ pieces, c ∉ piece.toList) : splitText (sep.intercalate pieces) sep = pieces := by
  have hlists : ∀ piece ∈ pieces.map String.toList, c ∉ piece := by
    intro piece hpiece
    obtain ⟨text, htext, rfl⟩ := List.mem_map.mp hpiece
    exact h text htext
  rw [splitText, String.toList_intercalate, hsep, cut_intercalate tail (by simpa using hne) hlists,
    List.map_map]
  have hid : String.ofList ∘ String.toList = id := by
    funext text
    exact String.ofList_toList
  rw [hid, List.map_id]

/-- The pieces of a text joined by one character that none of them holds. -/
theorem splitText_join (c : Char) {pieces : List String} (hne : pieces ≠ [])
    (h : ∀ piece ∈ pieces, c ∉ piece.toList) :
    splitText ((String.singleton c).intercalate pieces) (String.singleton c) = pieces :=
  splitText_intercalate (String.toList_singleton c) hne h

end text

end GwsMigrator.Separators
