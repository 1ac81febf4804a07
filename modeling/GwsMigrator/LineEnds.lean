import GwsMigrator.Escapes

/-! Texts whose lines end with CRLF, LF or CR: the first empty line, and all line ends made
CRLF. -/
namespace GwsMigrator.LineEnds
open Separators Escapes

variable {α : Type*} [DecidableEq α]

/-- The part before the first separator, as `text.split(sep, 1)[0]` has it. -/
def before (sep : List α) : List α → List α
  | [] => []
  | a :: as => if sep <+: a :: as then [] else a :: before sep as

section before
variable {sep : List α}

theorem before_prefix (as : List α) : before sep as <+: as := by
  induction as with
  | nil => exact List.prefix_refl []
  | cons a as ih =>
    rw [before]
    split
    · exact List.nil_prefix
    · exact (List.cons_prefix_cons).mpr ⟨rfl, ih⟩

theorem before_of_sep {as : List α} (h : sep <+: as) : before sep as = [] := by
  cases as with
  | nil => rfl
  | cons a as => rw [before, if_pos h]

/-- It is everything, or a separator follows. -/
theorem before_eq_self_or (as : List α) : before sep as = as ∨ before sep as ++ sep <+: as := by
  induction as with
  | nil => exact Or.inl rfl
  | cons a as ih =>
    rw [before]
    split
    next h => exact Or.inr h
    next =>
      rcases ih with ih | ih
      · exact Or.inl (by rw [ih])
      · exact Or.inr ((List.cons_prefix_cons).mpr ⟨rfl, ih⟩)

/-- No separator comes earlier than the first. -/
theorem before_prefix_of_sep {as head : List α} (h : head ++ sep <+: as) :
    before sep as <+: head := by
  induction head generalizing as with
  | nil =>
    rw [before_of_sep (by simpa using h)]
  | cons x head ih =>
    obtain ⟨rest, rfl⟩ := h
    rw [List.cons_append, List.cons_append, before]
    split
    · exact List.nil_prefix
    · exact (List.cons_prefix_cons).mpr ⟨rfl, ih (List.prefix_append _ _)⟩

end before

section lines
variable (cr lf : α)

/-- What is behind a LF that the text begins with. -/
def skipLf (as : List α) : List α := if as.head? = some lf then as.tail else as

/-- What is behind the line end that the text begins with. -/
def lineEnd : List α → Option (List α)
  | [] => none
  | a :: as => if a = cr then some (skipLf lf as) else if a = lf then some as else none

/-- A text of lines up to its first empty line, when its first line is not empty. -/
def lines : List α → List α
  | [] => []
  | a :: as =>
    if ((lineEnd cr lf (a :: as)).bind (lineEnd cr lf)).isSome then [] else a :: lines as

/-- Everything before the first empty line. -/
def block (as : List α) : List α := if (lineEnd cr lf as).isSome then [] else lines cr lf as

/-- Every line end made CRLF by three replacements, first CRLF by LF. -/
def normalize (as : List α) : List α :=
  substitute [lf] [cr, lf] 0 (substitute [cr] [lf] 0 (substitute [cr, lf] [lf] 0 as))

/-- The same in one pass; behind a CR a LF is dropped. -/
def crlf : Bool → List α → List α
  | _, [] => []
  | afterCr, a :: as =>
    if a = cr then cr :: lf :: crlf true as
    else if a = lf then if afterCr then crlf false as else cr :: lf :: crlf false as
    else a :: crlf false as

/-- The lines of a text, cut at CRLF, CR and LF, a CRLF before a CR. -/
def cutLines : List α → List (List α)
  | [] => [[]]
  | [a] => if a = cr ∨ a = lf then [[], []] else [[a]]
  | a :: b :: as =>
    if a = cr ∧ b = lf then [] :: cutLines as
    else if a = cr ∨ a = lf then [] :: cutLines (b :: as)
    else (cutLines (b :: as)).modifyHead (a :: ·)

/-- Up to a length the text has no line end but CRLF; behind a CR the LF is due. -/
def onlyCrlf : Bool → ℕ → List α → Bool
  | _, 0, _ => true
  | afterCr, _ + 1, [] => !afterCr
  | afterCr, n + 1, a :: as =>
    if afterCr then a = lf && onlyCrlf false n as
    else a ≠ lf && onlyCrlf (a = cr) n as

variable {cr lf}

theorem crlf_true_of_head {as : List α} (h : as.head? ≠ some lf) :
    crlf cr lf true as = crlf cr lf false as := by
  cases as with
  | nil => rfl
  | cons a as =>
    have ha : a ≠ lf := fun ha => h (congrArg some ha)
    rw [crlf, crlf, if_neg ha, if_neg ha]

/-- The three replacements are the one pass. -/
theorem normalize_eq (hne : cr ≠ lf) (as : List α) : normalize cr lf as = crlf cr lf false as := by
  -- what becomes of an element by the last two replacements
  let ends : α → List α := fun a => if a = cr ∨ a = lf then [cr, lf] else [a]
  have hends : ∀ l : List α,
      substitute [lf] [cr, lf] 0 (substitute [cr] [lf] 0 l) = l.flatMap ends := by
    intro l
    rw [substitute_singleton, substitute_singleton, List.flatMap_assoc]
    apply List.flatMap_congr
    intro a _
    by_cases hcr : a = cr
    · simp [ends, hcr]
    · by_cases hlf : a = lf <;> simp [ends, hcr, hlf]
  rw [normalize, hends]
  induction as with
  | nil => rfl
  | cons a as ih =>
    rw [substitute]
    by_cases hcr : a = cr
    · subst hcr
      rw [crlf, if_pos rfl]
      cases as with
      | nil => simp [substitute, ends, crlf]
      | cons b as =>
        by_cases hb : b = lf
        · subst hb
          have hpair : [a, b] <+: a :: b :: as := ⟨as, rfl⟩
          have hlf : ¬ [a, b] <+: b :: as := by
            rintro ⟨rest, hrest⟩
            exact hne (List.cons.inj hrest).1
          rw [substitute, if_neg hlf, crlf, if_neg (Ne.symm hne), if_pos rfl,
            if_neg Bool.false_ne_true] at ih
          rw [if_pos hpair, crlf, if_neg (Ne.symm hne), if_pos rfl, if_pos rfl]
          simpa [substitute, ends, hne, Ne.symm hne] using ih
        · have hpair : ¬ [a, lf] <+: a :: b :: as := by
            rintro ⟨rest, hrest⟩
            exact hb (List.cons.inj (List.cons.inj hrest).2).1.symm
          have hhead : (b :: as).head? ≠ some lf := fun h => hb (Option.some.inj h)
          rw [if_neg hpair, List.flatMap_cons, ih, crlf_true_of_head hhead]
          simp [ends]
    · have hpair : ¬ [cr, lf] <+: a :: as := by
        rintro ⟨rest, hrest⟩
        exact hcr (List.cons.inj hrest).1.symm
      rw [if_neg hpair, List.flatMap_cons, ih, crlf, if_neg hcr]
      by_cases hlf : a = lf
      · simp [ends, hlf]
      · simp [ends, hcr, hlf]

theorem crlf_true (hne : cr ≠ lf) (as : List α) :
    crlf cr lf true as = crlf cr lf false (skipLf lf as) := by
  rw [skipLf]
  split
  next h =>
    cases as with
    | nil => rfl
    | cons a as =>
      obtain rfl := Option.some.inj h
      rw [crlf, if_neg (Ne.symm hne), if_pos rfl, if_pos rfl]
      rfl
  next h => exact crlf_true_of_head h

/-- What has been normalized stays as it is. -/
theorem crlf_crlf (hne : cr ≠ lf) (as : List α) :
    crlf cr lf false (crlf cr lf false as) = crlf cr lf false as ∧
      crlf cr lf false (crlf cr lf true as) = crlf cr lf true as := by
  induction as with
  | nil => exact ⟨rfl, rfl⟩
  | cons a as ih =>
    by_cases hcr : a = cr
    · subst hcr
      simp [crlf, Ne.symm hne, ih.2]
    · by_cases hlf : a = lf
      · subst hlf
        simp [crlf, hcr, ih.1]
      · simp [crlf, hcr, hlf, ih.1]

theorem normalize_normalize (hne : cr ≠ lf) (as : List α) :
    normalize cr lf (normalize cr lf as) = normalize cr lf as := by
  rw [normalize_eq hne, normalize_eq hne, (crlf_crlf hne as).1]

/-- In a normal form every LF has its CR before it. -/
theorem crlf_before_lf (afterCr : Bool) (as : List α) {front back : List α}
    (h : crlf cr lf afterCr as = front ++ lf :: back) (hne : cr ≠ lf) :
    front.getLast? = some cr := by
  induction as generalizing afterCr front with
  | nil => simp [crlf] at h
  | cons a as ih =>
    have hpair : ∀ state, cr :: lf :: crlf cr lf state as = front ++ lf :: back →
        front.getLast? = some cr := by
      intro state hcut
      match front, hcut with
      | [], hcut => exact absurd (List.cons.inj hcut).1 hne
      | [x], hcut =>
        rw [(List.cons.inj hcut).1]
        rfl
      | x :: y :: front, hcut =>
        have hrest := ih state (List.cons.inj (List.cons.inj hcut).2).2
        rw [List.getLast?_cons_cons, List.getLast?_cons, hrest]
        rfl
    rw [crlf] at h
    split at h
    · exact hpair _ h
    · split at h
      · split at h
        · exact ih _ h
        · exact hpair _ h
      · next hlf =>
        match front, h with
        | [], h => exact absurd (List.cons.inj h).1 hlf
        | x :: front, h =>
          have hrest := ih false (List.cons.inj h).2
          rw [List.getLast?_cons, hrest]
          rfl

/-- And every CR its LF behind it. -/
theorem crlf_after_cr (afterCr : Bool) (as : List α) {front back : List α}
    (h : crlf cr lf afterCr as = front ++ cr :: back) (hne : cr ≠ lf) : back.head? = some lf := by
  induction as generalizing afterCr front with
  | nil => simp [crlf] at h
  | cons a as ih =>
    have hpair : ∀ state, cr :: lf :: crlf cr lf state as = front ++ cr :: back →
        back.head? = some lf := by
      intro state hcut
      match front, hcut with
      | [], hcut =>
        rw [← (List.cons.inj hcut).2]
        rfl
      | [x], hcut => exact absurd (List.cons.inj (List.cons.inj hcut).2).1.symm hne
      | x :: y :: front, hcut => exact ih state (List.cons.inj (List.cons.inj hcut).2).2
    rw [crlf] at h
    split at h
    · exact hpair _ h
    · next hcr =>
      split at h
      · split at h
        · exact ih _ h
        · exact hpair _ h
      · match front, h with
        | [], h => exact absurd (List.cons.inj h).1 hcr
        | x :: front, h => exact ih false (List.cons.inj h).2

/-- Normalizing neither loses nor merges nor adds a line. -/
theorem cut_crlf (hne : cr ≠ lf) (as : List α) :
    cut [cr, lf] 0 (crlf cr lf false as) = cutLines cr lf as := by
  have hpair : ∀ l : List α, cut [cr, lf] 0 (cr :: lf :: l) = [] :: cut [cr, lf] 0 l := by
    intro l
    rw [cut, if_pos ⟨l, rfl⟩]
    rfl
  have hplain : ∀ (a : α) (l : List α), a ≠ cr →
      cut [cr, lf] 0 (a :: l) = (cut [cr, lf] 0 l).modifyHead (a :: ·) := by
    intro a l ha
    have hsep : ¬ [cr, lf] <+: a :: l := by
      rintro ⟨rest, hrest⟩
      exact ha (List.cons.inj hrest).1.symm
    rw [cut, if_neg hsep]
  induction as using cutLines.induct cr lf with
  | case1 => rfl
  | case2 a hend =>
    have hnormal : crlf cr lf false [a] = [cr, lf] := by
      rcases hend with rfl | rfl
      · rw [crlf, if_pos rfl, crlf]
      · rw [crlf, if_neg (Ne.symm hne), if_pos rfl, if_neg Bool.false_ne_true, crlf]
    rw [hnormal, hpair, cutLines, if_pos hend, cut]
  | case3 a hend =>
    obtain ⟨hcr, hlf⟩ := not_or.mp hend
    rw [crlf, if_neg hcr, if_neg hlf, hplain a _ hcr, cutLines, if_neg hend, crlf, cut]
    rfl
  | case4 a b as hend ih =>
    obtain ⟨rfl, rfl⟩ := hend
    rw [cutLines, if_pos ⟨rfl, rfl⟩, ← ih, crlf, if_pos rfl, hpair, crlf, if_neg (Ne.symm hne),
      if_pos rfl, if_pos rfl]
  | case5 a b as hpairs hend ih =>
    rw [cutLines, if_neg hpairs, if_pos hend, ← ih, crlf]
    by_cases hcr : a = cr
    · have hhead : (b :: as).head? ≠ some lf := fun h => hpairs ⟨hcr, Option.some.inj h⟩
      rw [if_pos hcr, hpair, crlf_true_of_head hhead]
    · rw [if_neg hcr, if_pos (hend.resolve_left hcr), if_neg Bool.false_ne_true, hpair]
  | case6 a b as hpairs hend ih =>
    obtain ⟨hcr, hlf⟩ := not_or.mp hend
    rw [cutLines, if_neg hpairs, if_neg hend, ← ih, crlf, if_neg hcr, if_neg hlf, hplain a _ hcr]

/-- The text begins with a line end exactly when its normal form begins with CRLF. -/
theorem isSome_lineEnd_iff (as : List α) :
    (lineEnd cr lf as).isSome = true ↔ [cr, lf] <+: crlf cr lf false as := by
  cases as with
  | nil => simp [lineEnd, crlf]
  | cons a as =>
    rw [lineEnd, crlf]
    by_cases hcr : a = cr
    · simp [hcr, List.cons_prefix_cons]
    · by_cases hlf : a = lf
      · rw [if_neg hcr, if_neg hcr, if_pos hlf, if_pos hlf]
        simp [List.cons_prefix_cons]
      · simp [hcr, hlf, List.cons_prefix_cons, Ne.symm hcr]

/-- It has an empty line behind it exactly when the normal form begins with two CRLF. -/
theorem empty_line_iff (hne : cr ≠ lf) (as : List α) :
    ((lineEnd cr lf as).bind (lineEnd cr lf)).isSome = true ↔
      [cr, lf, cr, lf] <+: crlf cr lf false as := by
  cases as with
  | nil => simp [lineEnd, crlf]
  | cons a as =>
    rw [lineEnd, crlf]
    by_cases hcr : a = cr
    · rw [if_pos hcr, if_pos hcr, Option.bind_some, isSome_lineEnd_iff, crlf_true hne]
      simp [List.cons_prefix_cons]
    · by_cases hlf : a = lf
      · rw [if_neg hcr, if_neg hcr, if_pos hlf, if_pos hlf, Option.bind_some, isSome_lineEnd_iff]
        simp [List.cons_prefix_cons]
      · simp [hcr, hlf, List.cons_prefix_cons, Ne.symm hcr]

/-- Two CRLF are two line ends, also before anything is normalized. -/
theorem empty_line_of_start {as : List α} (h : [cr, lf, cr, lf] <+: as) :
    ((lineEnd cr lf as).bind (lineEnd cr lf)).isSome = true := by
  obtain ⟨rest, rfl⟩ := h
  simp [lineEnd, skipLf]

/-- A line end that is not followed by another is passed: its second half begins no separator. -/
theorem before_line_end (hne : cr ≠ lf) {as : List α} (h : ¬ [cr, lf, cr, lf] <+: cr :: lf :: as) :
    before [cr, lf, cr, lf] (cr :: lf :: as) = cr :: lf :: before [cr, lf, cr, lf] as := by
  have hlf : ¬ [cr, lf, cr, lf] <+: lf :: as := by
    rintro ⟨rest, hrest⟩
    exact hne (List.cons.inj hrest).1
  rw [before, if_neg h, before, if_neg hlf]

/-- The normal form of the lines before the first empty one is what the first two CRLF of the
normal form end. Behind a CR the next line must not be empty. -/
theorem before_crlf (hne : cr ≠ lf) (as : List α) :
    before [cr, lf, cr, lf] (crlf cr lf false as) = crlf cr lf false (lines cr lf as) ∧
      ((lineEnd cr lf (skipLf lf as)).isSome = false →
        before [cr, lf, cr, lf] (crlf cr lf true as) = crlf cr lf true (lines cr lf as)) := by
  have hempty := fun l => not_congr (empty_line_iff hne l)
  induction as with
  | nil => exact ⟨rfl, fun _ => rfl⟩
  | cons a as ih =>
    have hfalse : before [cr, lf, cr, lf] (crlf cr lf false (a :: as)) =
        crlf cr lf false (lines cr lf (a :: as)) := by
      by_cases hstop : ((lineEnd cr lf (a :: as)).bind (lineEnd cr lf)).isSome = true
      · rw [before_of_sep ((empty_line_iff hne _).mp hstop), lines, if_pos hstop]
        rfl
      · have hnot := (hempty _).mp hstop
        rw [lines, if_neg hstop]
        rw [crlf] at hnot ⊢
        rw [crlf]
        rw [lineEnd] at hstop
        by_cases hcr : a = cr
        · rw [if_pos hcr] at hnot hstop ⊢
          rw [if_pos hcr, before_line_end hne hnot, ih.2 (by simpa using hstop)]
        · rw [if_neg hcr] at hnot ⊢
          rw [if_neg hcr]
          by_cases hlf : a = lf
          · rw [if_pos hlf, if_neg Bool.false_ne_true] at hnot ⊢
            rw [if_pos hlf, if_neg Bool.false_ne_true, before_line_end hne hnot, ih.1]
          · rw [if_neg hlf] at hnot ⊢
            rw [if_neg hlf, before, if_neg hnot, ih.1]
    refine ⟨hfalse, fun h => ?_⟩
    by_cases hlf : a = lf
    · subst hlf
      have hrest : (lineEnd cr a as).isSome = false := by simpa [skipLf] using h
      have hstop : ¬ ((lineEnd cr a (a :: as)).bind (lineEnd cr a)).isSome = true := by
        rw [lineEnd, if_neg (Ne.symm hne), if_pos rfl, Option.bind_some, hrest]
        exact Bool.false_ne_true
      rw [lines, if_neg hstop]
      simp only [crlf, if_neg (Ne.symm hne), if_true]
      exact ih.1
    · have hhead : (a :: as).head? ≠ some lf := fun h => hlf (Option.some.inj h)
      rw [skipLf, if_neg hhead] at h
      have hstop : ¬ ((lineEnd cr lf (a :: as)).bind (lineEnd cr lf)).isSome = true := by
        rw [Option.isSome_eq_false_iff, Option.isNone_iff_eq_none] at h
        rw [h]
        exact Bool.false_ne_true
      have hlines : (lines cr lf (a :: as)).head? ≠ some lf := by
        rw [lines, if_neg hstop]
        exact hhead
      rw [crlf_true_of_head hhead, crlf_true_of_head hlines, hfalse]

/-- A text whose first line is not empty: the part before two CRLF of its normal form is the
normal form of its lines. -/
theorem before_normalize (hne : cr ≠ lf) (as : List α) :
    before [cr, lf, cr, lf] (normalize cr lf as) = normalize cr lf (lines cr lf as) := by
  rw [normalize_eq hne, normalize_eq hne, (before_crlf hne as).1]

/-- The lines before the first empty one stop where two CRLF stand, if not earlier. -/
theorem lines_prefix_before (as : List α) : lines cr lf as <+: before [cr, lf, cr, lf] as := by
  induction as with
  | nil => exact List.prefix_refl []
  | cons a as ih =>
    rw [lines]
    split
    next => exact List.nil_prefix
    next h =>
      have hsep : ¬ [cr, lf, cr, lf] <+: a :: as := fun hp => h (empty_line_of_start hp)
      rw [before, if_neg hsep]
      exact (List.cons_prefix_cons).mpr ⟨rfl, ih⟩

theorem block_prefix_before (as : List α) : block cr lf as <+: before [cr, lf, cr, lf] as := by
  rw [block]
  split
  · exact List.nil_prefix
  · exact lines_prefix_before as

/-- Two CRLF stand at the end of the block, or nothing does. -/
theorem before_eq_block_iff (as : List α) :
    before [cr, lf, cr, lf] as = block cr lf as ↔
      block cr lf as = as ∨ block cr lf as ++ [cr, lf, cr, lf] <+: as := by
  constructor
  · intro h
    rw [← h]
    exact before_eq_self_or as
  · rintro (h | h)
    · have hback : before [cr, lf, cr, lf] as <+: block cr lf as := by
        rw [h]
        exact before_prefix as
      exact hback.eq_of_length_le (block_prefix_before as).length_le
    · exact (before_prefix_of_sep h).eq_of_length_le (block_prefix_before as).length_le

/-- Up to a length a text is its own normal form exactly when it has no other line ends. -/
theorem take_crlf_iff (hne : cr ≠ lf) (n : ℕ) (as : List α) :
    ((crlf cr lf false as).take n = as.take n ↔ onlyCrlf cr lf false n as = true) ∧
      ((lf :: crlf cr lf true as).take n = as.take n ↔ onlyCrlf cr lf true n as = true) := by
  induction as generalizing n with
  | nil => cases n <;> simp [crlf, onlyCrlf]
  | cons a as ih =>
    cases n with
    | zero => simp [onlyCrlf]
    | succ n =>
      rw [onlyCrlf, onlyCrlf, crlf, crlf]
      by_cases hcr : a = cr
      · subst hcr
        simp [hne, Ne.symm hne, (ih n).2]
      · by_cases hlf : a = lf
        · subst hlf
          simp [hne, hcr, (ih n).1]
        · simp [hcr, hlf, Ne.symm hlf, (ih n).1]

end lines
end GwsMigrator.LineEnds
