import GwsMigrator.TextEdits

/-! Texts in which an escape stands before every special element, and what is left of one when
only the elements at its ends are taken off. -/
namespace GwsMigrator.Escapes
open Separators TextEdits

variable {α : Type*}

section escape
variable (special : α → Bool) (e : α)

/-- `e` before every special element. -/
def escape (as : List α) : List α := as.flatMap (fun a => if special a then [e, a] else [a])

@[simp] theorem escape_nil : escape special e [] = [] := rfl

@[simp] theorem escape_cons (a : α) (as : List α) :
    escape special e (a :: as) = (if special a then [e, a] else [a]) ++ escape special e as := rfl

theorem mem_escape {as : List α} {x : α} (h : x ∈ escape special e as) : x = e ∨ x ∈ as := by
  obtain ⟨a, ha, hx⟩ := List.mem_flatMap.mp h
  split at hx
  · rcases List.mem_cons.mp hx with rfl | hx
    · exact Or.inl rfl
    · exact Or.inr (List.mem_singleton.mp hx ▸ ha)
  · exact Or.inr (List.mem_singleton.mp hx ▸ ha)

theorem escape_append (as bs : List α) :
    escape special e (as ++ bs) = escape special e as ++ escape special e bs :=
  List.flatMap_append

/-- A joined text is escaped piece by piece, the separator too. -/
theorem escape_intercalate (sep : List α) (pieces : List (List α)) :
    escape special e (sep.intercalate pieces) =
      (escape special e sep).intercalate (pieces.map (escape special e)) := by
  induction pieces with
  | nil => simp
  | cons piece pieces ih =>
    cases pieces with
    | nil => simp
    | cons second pieces =>
      rw [List.intercalate_cons_cons, escape_append, escape_append, ih]
      simp only [List.map_cons, List.intercalate_cons_cons]

/-- Nothing is escaped in a text without special elements. -/
theorem escape_eq_self {as : List α} (h : ∀ a ∈ as, special a = false) :
    escape special e as = as := by
  induction as with
  | nil => rfl
  | cons a as ih =>
    obtain ⟨ha, has⟩ := List.forall_mem_cons.mp h
    rw [escape_cons, ha, ih has]
    rfl

/-- Where the escape is special itself, a text can be read off its escaped form. -/
theorem escape_injective (he : special e = true) : Function.Injective (escape special e) := by
  intro as bs h
  induction as generalizing bs with
  | nil =>
    cases bs with
    | nil => rfl
    | cons b bs =>
      rw [escape_cons] at h
      split at h <;> cases h
  | cons a as ih =>
    cases bs with
    | nil =>
      rw [escape_cons] at h
      split at h <;> cases h
    | cons b bs =>
      rw [escape_cons, escape_cons] at h
      by_cases ha : special a = true
      · by_cases hb : special b = true
        · rw [if_pos ha, if_pos hb, List.cons_append, List.singleton_append, List.cons_append,
            List.singleton_append] at h
          obtain ⟨-, hrest⟩ := List.cons.inj h
          obtain ⟨rfl, htail⟩ := List.cons.inj hrest
          rw [ih htail]
        · rw [if_pos ha, if_neg hb] at h
          -- the escape of one text against an element of the other that is not special
          obtain ⟨rfl, -⟩ := List.cons.inj h
          exact absurd he hb
      · by_cases hb : special b = true
        · rw [if_neg ha, if_pos hb] at h
          obtain ⟨rfl, -⟩ := List.cons.inj h
          exact absurd he ha
        · rw [if_neg ha, if_neg hb, List.singleton_append, List.singleton_append] at h
          obtain ⟨rfl, hrest⟩ := List.cons.inj h
          rw [ih hrest]

theorem count_escape_of_ne [DecidableEq α] {c : α} (hc : c ≠ e) (as : List α) :
    (escape special e as).count c = as.count c := by
  induction as with
  | nil => rfl
  | cons a as ih =>
    rw [escape_cons, List.count_append, ih, List.count_cons]
    split
    · rw [List.count_cons_of_ne (Ne.symm hc), List.count_singleton, Nat.add_comm]
    · rw [List.count_singleton, Nat.add_comm]

/-- Every special element adds an escape. -/
theorem count_escape [DecidableEq α] (he : special e = true) (as : List α) :
    (escape special e as).count e = as.count e + as.countP special := by
  induction as with
  | nil => rfl
  | cons a as ih =>
    rw [escape_cons, List.count_append, ih, List.count_cons, List.countP_cons]
    by_cases ha : special a = true
    · rw [if_pos ha, if_pos ha, List.count_cons_self, List.count_singleton]
      omega
    · have hne : a ≠ e := by
        rintro rfl
        exact ha he
      rw [if_neg ha, if_neg ha, List.count_singleton]
      omega

end escape

/-- A single element replaced. -/
theorem substitute_singleton [DecidableEq α] (c : α) (new as : List α) :
    substitute [c] new 0 as = as.flatMap (fun a => if a = c then new else [a]) := by
  induction as with
  | nil => rfl
  | cons a as ih =>
    rw [substitute, List.flatMap_cons, ← ih]
    by_cases h : a = c
    · subst h
      simp
    · have hne : ¬ [c] <+: a :: as := by
        rintro ⟨rest, hrest⟩
        exact h (List.cons.inj hrest).1.symm
      rw [if_neg hne, if_neg h]
      rfl

/-- Escapes put before the escape first, and before another element then. -/
theorem substitute_substitute [DecidableEq α] {e q : α} (hne : e ≠ q) (as : List α) :
    substitute [q] [e, q] 0 (substitute [e] [e, e] 0 as) =
      escape (fun a => a = e ∨ a = q) e as := by
  rw [substitute_singleton, substitute_singleton, List.flatMap_assoc]
  apply List.flatMap_congr
  intro a _
  by_cases he : a = e
  · subst he
    simp [hne]
  · by_cases hq : a = q
    · subst hq
      simp [he]
    · simp [he, hq]

section strip
variable (p : α → Bool)

/-- Stripping takes off only what it strips. -/
theorem count_strip [DecidableEq α] {c : α} (hc : p c = false) (as : List α) :
    (strip p as).count c = as.count c := by
  have hdrop : ∀ l : List α, (l.dropWhile p).count c = l.count c := by
    intro l
    have hsplit := congrArg (List.count c) (List.takeWhile_append_dropWhile (p := p) (l := l))
    have hzero : (l.takeWhile p).count c = 0 := by
      apply List.count_eq_zero.mpr
      intro hmem
      rw [List.mem_takeWhile_imp hmem] at hc
      cases hc
    rw [List.count_append, hzero, Nat.zero_add] at hsplit
    exact hsplit
  rw [strip, List.rdropWhile, List.count_reverse, hdrop, List.count_reverse, hdrop]

/-- A text between two elements to strip, with none inside. -/
theorem strip_between {a b : α} {as : List α} (ha : p a = true) (hb : p b = true)
    (h : ∀ x ∈ as, p x = false) : strip p (a :: (as ++ [b])) = as := by
  have hleft : (a :: (as ++ [b])).dropWhile p = (as ++ [b]).dropWhile p := by
    rw [List.dropWhile_cons_of_pos ha]
  rw [strip, hleft]
  cases as with
  | nil => simp [hb]
  | cons x as =>
    have hx := h x List.mem_cons_self
    rw [List.cons_append, List.dropWhile_cons_of_neg (by simp [hx]), ← List.cons_append,
      List.rdropWhile_concat_pos _ _ _ hb]
    apply List.rdropWhile_eq_self_iff.mpr
    intro hne
    rw [h _ (List.getLast_mem hne)]
    exact Bool.false_ne_true

end strip
end GwsMigrator.Escapes
