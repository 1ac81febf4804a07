import GwsMigrator.Separators
import Mathlib.Data.List.Chain
import Mathlib.Data.List.DropRight
import Mathlib.Data.List.TakeWhile
import Mathlib.Data.List.Forall2

/-! Edits of texts as regular expressions make them, and what stays true of the neighbours
and of the two ends of a text under each. -/
namespace GwsMigrator.TextEdits
open Separators

variable {α : Type*}

/-- The front and the back of a chain, put side by side. -/
theorem isChain_front_back {R : α → α → Prop} {as front back : List α} (h : as.IsChain R)
    (hfront : front <+: as) (hback : back <:+ as)
    (hjoin : ∀ a ∈ front.getLast?, ∀ b ∈ back.head?, R a b) : (front ++ back).IsChain R := by
  have hinit : front.IsChain R := List.IsChain.prefix h hfront
  have htail : back.IsChain R := List.IsChain.suffix h hback
  exact List.isChain_append.mpr ⟨hinit, htail, hjoin⟩

/-- Neighbours that go together still do when no element changes its place among them. -/
theorem isChain_forall₂ {Rel R : α → α → Prop} {as bs : List α} (h : List.Forall₂ Rel as bs)
    (hR : ∀ a b a' b', Rel a a' → Rel b b' → R a b → R a' b') (hchain : as.IsChain R) :
    bs.IsChain R := by
  induction h with
  | nil => exact List.isChain_nil
  | cons hab hrest ih =>
    obtain ⟨hhead, htail⟩ := List.isChain_cons.mp hchain
    refine List.isChain_cons.mpr ⟨fun b hb => ?_, ih htail⟩
    cases hrest with
    | nil => cases hb
    | cons hcd _ =>
      cases hb
      exact hR _ _ _ _ hab hcd (hhead _ rfl)

/-- An element that is as it was only if it was it before: it is the first of both or of none. -/
theorem head_forall₂ {Rel : α → α → Prop} {as bs : List α} (h : List.Forall₂ Rel as bs) {x : α}
    (hx : ∀ a b, Rel a b → (b = x ↔ a = x)) : bs.head? = some x ↔ as.head? = some x := by
  cases h with
  | nil => exact Iff.rfl
  | cons hab _ => simpa using hx _ _ hab

theorem last_forall₂ {Rel : α → α → Prop} {as bs : List α} (h : List.Forall₂ Rel as bs) {x : α}
    (hx : ∀ a b, Rel a b → (b = x ↔ a = x)) : bs.getLast? = some x ↔ as.getLast? = some x := by
  rw [← List.head?_reverse, ← List.head?_reverse]
  exact head_forall₂ (List.forall₂_reverse_iff.mpr h) hx

theorem mem_forall₂ {β : Type*} {Rel : α → β → Prop} {as : List α} {bs : List β}
    (h : List.Forall₂ Rel as bs) {b : β} (hb : b ∈ bs) : ∃ a ∈ as, Rel a b := by
  induction h with
  | nil => exact absurd hb List.not_mem_nil
  | @cons a _ _ _ hab _ ih =>
    rcases List.mem_cons.mp hb with rfl | hb
    · exact ⟨a, List.mem_cons_self, hab⟩
    · obtain ⟨a', ha', hrel⟩ := ih hb
      exact ⟨a', List.mem_cons_of_mem _ ha', hrel⟩

/-- A part that does not hold the element between two texts lies in one of them. -/
theorem infix_of_notMem {part as bs : List α} {c : α} (hc : c ∉ part)
    (h : part <:+: as ++ c :: bs) : part <:+: as ∨ part <:+: bs := by
  have hstart : ∀ {part as : List α}, c ∉ part → part <+: as ++ c :: bs → part <+: as := by
    intro part as hc h
    induction as generalizing part with
    | nil =>
      cases part with
      | nil => exact List.nil_prefix
      | cons x part =>
        obtain ⟨rest, hrest⟩ := h
        exact absurd (by simp [(List.cons.inj hrest).1]) hc
    | cons a as ih =>
      cases part with
      | nil => exact List.nil_prefix
      | cons x part =>
        obtain ⟨rfl, hrest⟩ := List.cons_prefix_cons.mp h
        rw [List.mem_cons, not_or] at hc
        exact List.cons_prefix_cons.mpr ⟨rfl, ih hc.2 hrest⟩
  induction as with
  | nil =>
    rcases List.infix_cons_iff.mp h with hpre | hpart
    · have hnil : part <+: [] := hstart hc hpre
      exact Or.inl hnil.isInfix
    · exact Or.inr hpart
  | cons a as ih =>
    rcases List.infix_cons_iff.mp h with hpre | hpart
    · have hinit : part <+: a :: as := hstart hc hpre
      exact Or.inl hinit.isInfix
    · rcases ih hpart with hfirst | hsecond
      · exact Or.inl (List.infix_cons hfirst)
      · exact Or.inr hsecond

section squash

/-- Every maximal run of elements with `p` becomes one `c`. -/
def squash (p : α → Bool) (c : α) : List α → List α
  | [] => []
  | a :: as =>
    if p a then (if as.head?.any p then squash p c as else c :: squash p c as)
    else a :: squash p c as

variable {p : α → Bool} {c : α}

theorem mem_squash {as : List α} {x : α} (h : x ∈ squash p c as) :
    x = c ∨ (x ∈ as ∧ p x = false) := by
  induction as with
  | nil => exact absurd h List.not_mem_nil
  | cons a as ih =>
    have hlater : x ∈ squash p c as → x = c ∨ (x ∈ a :: as ∧ p x = false) := by
      intro hx
      rcases ih hx with heq | ⟨hmem, hp⟩
      · exact Or.inl heq
      · exact Or.inr ⟨List.mem_cons_of_mem a hmem, hp⟩
    rw [squash] at h
    by_cases ha : p a = true
    · rw [if_pos ha] at h
      split at h
      · exact hlater h
      · rcases List.mem_cons.mp h with heq | hx
        · exact Or.inl heq
        · exact hlater hx
    · rw [if_neg ha] at h
      rcases List.mem_cons.mp h with rfl | hx
      · exact Or.inr ⟨List.mem_cons_self, by simpa using ha⟩
      · exact hlater hx

/-- The first element is kept, or stands for the run that the text begins with. -/
theorem head_squash (as : List α) :
    (squash p c as).head? = as.head?.map (fun a => if p a then c else a) := by
  induction as with
  | nil => rfl
  | cons a as ih =>
    rw [squash, List.head?_cons, Option.map_some]
    by_cases ha : p a = true
    · rw [if_pos ha, if_pos ha]
      split
      · next hrun =>
        obtain ⟨b, hb, hpb⟩ := (Option.any_eq_true _ _).mp hrun
        rw [ih, hb, Option.map_some, if_pos hpb]
      · rfl
    · rw [if_neg ha, if_neg ha]
      rfl

/-- Neighbours that go together still do, if `c` goes with everything. -/
theorem isChain_squash {R : α → α → Prop} (hleft : ∀ a, R c a) (hright : ∀ a, R a c)
    {as : List α} (h : as.IsChain R) : (squash p c as).IsChain R := by
  induction as with
  | nil => exact List.isChain_nil
  | cons a as ih =>
    obtain ⟨hhead, htail⟩ := List.isChain_cons.mp h
    rw [squash]
    by_cases ha : p a = true
    · rw [if_pos ha]
      split
      · exact ih htail
      · exact List.isChain_cons.mpr ⟨fun b _ => hleft b, ih htail⟩
    · rw [if_neg ha]
      refine List.isChain_cons.mpr ⟨fun b hb => ?_, ih htail⟩
      rw [head_squash] at hb
      obtain ⟨b', hb', rfl⟩ := Option.map_eq_some_iff.mp hb
      split
      · exact hright a
      · exact hhead b' hb'

/-- No two elements with `p` are neighbours after it. -/
theorem isChain_not_squash (as : List α) :
    (squash p c as).IsChain (fun a b => p a = true → p b = false) := by
  induction as with
  | nil => exact List.isChain_nil
  | cons a as ih =>
    rw [squash]
    by_cases ha : p a = true
    · rw [if_pos ha]
      split
      · exact ih
      · next hrun =>
        refine List.isChain_cons.mpr ⟨fun b hb _ => ?_, ih⟩
        rw [head_squash] at hb
        obtain ⟨b', hb', rfl⟩ := Option.map_eq_some_iff.mp hb
        -- the run ends here
        have hnot : p b' = false := by
          by_contra hp
          apply hrun
          rw [hb']
          simpa using hp
        rw [hnot]
        simpa using hnot
    · rw [if_neg ha]
      exact List.isChain_cons.mpr ⟨fun b _ hpa => absurd hpa ha, ih⟩

theorem squash_of_forall {as : List α} (h : ∀ a ∈ as, p a = false) : squash p c as = as := by
  induction as with
  | nil => rfl
  | cons a as ih =>
    rw [squash, h a List.mem_cons_self, if_neg Bool.false_ne_true,
      ih (fun b hb => h b (List.mem_cons_of_mem a hb))]

/-- What is not squashed is left as it was. -/
theorem filter_squash (hc : p c = true) (as : List α) :
    (squash p c as).filter (fun a => !p a) = as.filter (fun a => !p a) := by
  induction as with
  | nil => rfl
  | cons a as ih =>
    rw [squash]
    by_cases ha : p a = true
    · rw [if_pos ha, List.filter_cons_of_neg (by simp [ha]), ← ih]
      split
      · rfl
      · rw [List.filter_cons_of_neg (by simp [hc])]
    · rw [if_neg ha, List.filter_cons_of_pos (by simp [ha]), List.filter_cons_of_pos (by simp [ha]),
        ih]

/-- Runs of the one element with `p` that are no longer than one stay. -/
theorem squash_eq_self (hc : ∀ a, p a = true → a = c) {as : List α}
    (h : as.IsChain (fun a b => p a = true → p b = false)) : squash p c as = as := by
  induction as with
  | nil => rfl
  | cons a as ih =>
    obtain ⟨hhead, htail⟩ := List.isChain_cons.mp h
    rw [squash, ih htail]
    by_cases ha : p a = true
    · have hend : as.head?.any p = false := by
        cases hfirst : as.head? with
        | none => rfl
        | some b => exact hhead b hfirst ha
      rw [if_pos ha, hend, if_neg Bool.false_ne_true, hc a ha]
    · rw [if_neg ha]

end squash

section strip

/-- `text.strip(...)` with the characters that have `p`. -/
def strip (p : α → Bool) (as : List α) : List α := (as.dropWhile p).rdropWhile p

/-- What `text.strip()` takes off a text in ASCII. -/
def isBlank (c : Char) : Bool := 9 ≤ c.toNat ∧ c.toNat ≤ 13 ∨ 28 ≤ c.toNat ∧ c.toNat ≤ 32

/-- What it takes off any text, and `\s` takes. -/
def isSpace (c : Char) : Bool :=
  isBlank c ∨ c.toNat ∈ [0x85, 0xa0, 0x1680, 0x2028, 0x2029, 0x202f, 0x205f, 0x3000] ∨
    0x2000 ≤ c.toNat ∧ c.toNat ≤ 0x200a

variable {p : α → Bool}

theorem strip_infix (as : List α) : strip p as <:+: as :=
  (List.rdropWhile_prefix p (as.dropWhile p)).isInfix.trans (List.dropWhile_suffix p).isInfix

/-- The text begins with its first element that is not stripped. -/
theorem head_strip (as : List α) : (strip p as).head? = as.find? (fun a => !p a) := by
  induction as with
  | nil => rfl
  | cons a as ih =>
    by_cases ha : p a = true
    · rw [strip, List.dropWhile_cons_of_pos ha, List.find?_cons_of_neg (by simp [ha])]
      exact ih
    · rw [strip, List.dropWhile_cons_of_neg ha, List.find?_cons_of_pos (by simp [ha])]
      obtain ⟨rest, hrest⟩ := List.rdropWhile_prefix p (a :: as)
      cases hcases : (a :: as).rdropWhile p with
      | nil => exact absurd (List.rdropWhile_eq_nil_iff.mp hcases a List.mem_cons_self) ha
      | cons b bs =>
        rw [hcases, List.cons_append] at hrest
        rw [(List.cons.inj hrest).1]
        rfl

/-- And it ends with its last one. -/
theorem last_strip (as : List α) : (strip p as).getLast? = as.reverse.find? (fun a => !p a) := by
  have hend : (strip p as).getLast? = (as.dropWhile p).reverse.find? (fun a => !p a) := by
    rw [strip, List.rdropWhile, List.getLast?_reverse]
    exact (List.find?_not_eq_head?_dropWhile ..).symm
  have hstart : (as.takeWhile p).reverse.find? (fun a => !p a) = none := by
    rw [List.find?_eq_none]
    intro a ha
    simp [List.mem_takeWhile_imp (List.mem_reverse.mp ha)]
  have hall : as.reverse = (as.dropWhile p).reverse ++ (as.takeWhile p).reverse := by
    rw [← List.reverse_append, List.takeWhile_append_dropWhile]
  rw [hend, hall, List.find?_append, hstart, Option.or_none]

theorem strip_eq_self {as : List α} (hhead : ∀ a, as.head? = some a → p a = false)
    (hlast : ∀ a, as.getLast? = some a → p a = false) : strip p as = as := by
  have hdrop : as.dropWhile p = as := by
    cases as with
    | nil => rfl
    | cons a as => rw [List.dropWhile_cons_of_neg (by simp [hhead a rfl])]
  rw [strip, hdrop, List.rdropWhile]
  have hreverse : as.reverse.dropWhile p = as.reverse := by
    cases hcases : as.reverse with
    | nil => rfl
    | cons b bs =>
      have hb : as.getLast? = some b := by
        rw [← List.head?_reverse, hcases]
        rfl
      rw [List.dropWhile_cons_of_neg (by simp [hlast b hb])]
  rw [hreverse, List.reverse_reverse]

end strip

section partition

variable [DecidableEq α] (c : α)

/-- `text.rpartition(c)`, without the `c`, for a text that has one. -/
def rpartition (as : List α) : List α × List α :=
  ((as.rdropWhile (· ≠ c)).dropLast, as.rtakeWhile (· ≠ c))

variable {c}

theorem notMem_rpartition_snd (as : List α) : c ∉ (rpartition c as).2 := by
  intro h
  have hne := List.mem_rtakeWhile_imp h
  simp at hne

theorem rpartition_eq {as : List α} (h : c ∈ as) :
    as = (rpartition c as).1 ++ c :: (rpartition c as).2 := by
  have hne : as.rdropWhile (· ≠ c) ≠ [] := by
    intro hnil
    have hall := List.rdropWhile_eq_nil_iff.mp hnil c h
    simp at hall
  have hlast : (as.rdropWhile (· ≠ c)).getLast hne = c := by
    have hnot := List.rdropWhile_last_not (· ≠ c) as hne
    simpa using hnot
  have hsplit : (as.rdropWhile (· ≠ c)).dropLast ++ [c] = as.rdropWhile (· ≠ c) := by
    have hconcat := List.dropLast_append_getLast hne
    rwa [hlast] at hconcat
  calc as = as.rdropWhile (· ≠ c) ++ as.rtakeWhile (· ≠ c) :=
        List.rdropWhile_append_rtakeWhile.symm
    _ = (as.rdropWhile (· ≠ c)).dropLast ++ [c] ++ as.rtakeWhile (· ≠ c) := by rw [hsplit]
    _ = (rpartition c as).1 ++ c :: (rpartition c as).2 := by
        rw [List.append_assoc]
        rfl

theorem rpartition_append {stem ext : List α} (h : c ∉ ext) :
    rpartition c (stem ++ c :: ext) = (stem, ext) := by
  have hdrop : (stem ++ c :: ext).rdropWhile (· ≠ c) = stem ++ [c] ∧
      (stem ++ c :: ext).rtakeWhile (· ≠ c) = ext := by
    induction ext using List.reverseRecOn with
    | nil =>
      exact ⟨List.rdropWhile_concat_neg _ _ _ (by simp), List.rtakeWhile_concat_neg _ _ _ (by simp)⟩
    | append_singleton ext x ih =>
      rw [List.mem_append, not_or] at h
      have hx : x ≠ c := fun heq => h.2 (by simp [heq])
      obtain ⟨hd, ht⟩ := ih h.1
      have hassoc : stem ++ c :: (ext ++ [x]) = stem ++ c :: ext ++ [x] := by simp
      rw [hassoc, List.rdropWhile_concat_pos _ _ _ (by simpa using hx),
        List.rtakeWhile_concat_pos _ _ _ (by simpa using hx), hd, ht]
      exact ⟨rfl, rfl⟩
  rw [rpartition, hdrop.1, hdrop.2, List.dropLast_concat]

end partition

section lines

variable [DecidableEq α] (sp nl : α)

/-- Only blanks are left of the line. -/
def endsLine (as : List α) : Bool := (as.dropWhile (· = sp)).head?.all (· = nl)

/-- The blanks at the start and at the end of every line removed; `start` says that no more
than blanks came before on the line. -/
def trimLines : Bool → List α → List α
  | _, [] => []
  | start, a :: as =>
    if a = sp then
      (if start || endsLine sp nl as then trimLines start as else a :: trimLines false as)
    else a :: trimLines (a = nl) as

/-- Neighbours within a text whose lines are trimmed. -/
def Trim (a b : α) : Prop := (a = nl → b ≠ sp) ∧ (a = sp → b ≠ nl)

variable {sp nl}

theorem mem_trimLines {start : Bool} {as : List α} {x : α} (h : x ∈ trimLines sp nl start as) :
    x ∈ as := by
  induction as generalizing start with
  | nil => exact h
  | cons a as ih =>
    rw [trimLines] at h
    split at h
    · split at h
      · exact List.mem_cons_of_mem a (ih h)
      · rcases List.mem_cons.mp h with rfl | h
        · exact List.mem_cons_self
        · exact List.mem_cons_of_mem a (ih h)
    · rcases List.mem_cons.mp h with rfl | h
      · exact List.mem_cons_self
      · exact List.mem_cons_of_mem a (ih h)

theorem head_trimLines_true (as : List α) : (trimLines sp nl true as).head? ≠ some sp := by
  induction as with
  | nil => simp [trimLines]
  | cons a as ih =>
    rw [trimLines]
    by_cases ha : a = sp
    · rw [if_pos ha, Bool.true_or, if_pos rfl]
      exact ih
    · rw [if_neg ha]
      simpa using ha

theorem head_trimLines_false (hne : sp ≠ nl) {as : List α} (h : endsLine sp nl as = false) :
    ∃ b, (trimLines sp nl false as).head? = some b ∧ b ≠ nl := by
  cases as with
  | nil => cases h
  | cons a as =>
    rw [trimLines]
    by_cases ha : a = sp
    · have hrest : endsLine sp nl as = false := by
        rw [endsLine, List.dropWhile_cons_of_pos (by simpa using ha)] at h
        exact h
      rw [if_pos ha, hrest, Bool.or_false, if_neg Bool.false_ne_true]
      exact ⟨a, rfl, ha ▸ hne⟩
    · rw [if_neg ha]
      rw [endsLine, List.dropWhile_cons_of_neg (by simpa using ha)] at h
      exact ⟨a, rfl, by simpa using h⟩

theorem isChain_trimLines (hne : sp ≠ nl) (start : Bool) (as : List α) :
    (trimLines sp nl start as).IsChain (Trim sp nl) := by
  induction as generalizing start with
  | nil => exact List.isChain_nil
  | cons a as ih =>
    rw [trimLines]
    by_cases ha : a = sp
    · rw [if_pos ha]
      split
      · exact ih start
      · next hkept =>
        obtain ⟨-, hends⟩ : start = false ∧ endsLine sp nl as = false := by simpa using hkept
        obtain ⟨b, hb, hbne⟩ := head_trimLines_false hne hends
        refine List.isChain_cons.mpr ⟨fun b' hb' => ⟨?_, fun _ => ?_⟩, ih false⟩
        · exact fun hnl => absurd (ha.symm.trans hnl) hne
        · rw [hb] at hb'
          cases hb'
          exact hbne
    · rw [if_neg ha]
      refine List.isChain_cons.mpr ⟨fun b hb => ⟨fun hnl hsp => ?_, fun hsp => absurd hsp ha⟩, ih _⟩
      -- the next line starts without blanks
      subst hnl hsp
      simp only [decide_true] at hb
      exact head_trimLines_true as hb

theorem endsLine_eq_false {as : List α} (h : (sp :: as).IsChain (Trim sp nl))
    (hlast : (sp :: as).getLast? ≠ some sp) : endsLine sp nl as = false := by
  induction as with
  | nil => exact absurd rfl hlast
  | cons b bs ih =>
    obtain ⟨hhead, htail⟩ := List.isChain_cons.mp h
    rw [List.getLast?_cons_cons] at hlast
    by_cases hb : b = sp
    · subst hb
      rw [endsLine, List.dropWhile_cons_of_pos (by simp)]
      exact ih htail hlast
    · rw [endsLine, List.dropWhile_cons_of_neg (by simpa using hb)]
      simpa using (hhead b rfl).2 rfl

/-- A text whose lines are trimmed stays as it is. -/
theorem trimLines_eq_self {start : Bool} {as : List α} (h : as.IsChain (Trim sp nl))
    (hhead : start = true → as.head? ≠ some sp) (hlast : as.getLast? ≠ some sp) :
    trimLines sp nl start as = as := by
  induction as generalizing start with
  | nil => rfl
  | cons a as ih =>
    obtain ⟨hfirst, htail⟩ := List.isChain_cons.mp h
    have hrest : as.getLast? ≠ some sp := by
      cases as with
      | nil => simp
      | cons b bs => rwa [List.getLast?_cons_cons] at hlast
    rw [trimLines]
    by_cases ha : a = sp
    · subst ha
      have hstart : start = false := by
        by_contra hstart
        exact hhead (by simpa using hstart) rfl
      rw [if_pos rfl, hstart, endsLine_eq_false h hlast, Bool.or_false,
        if_neg Bool.false_ne_true, ih htail (fun hfalse => by cases hfalse) hrest]
    · rw [if_neg ha, ih htail (fun hnl hsp => ?_) hrest]
      exact (hfirst sp hsp).1 (by simpa using hnl) rfl

end lines

section substitute

variable [DecidableEq α] {sep new : List α}

theorem substitute_skip (sep new : List α) (skip : ℕ) (as : List α) :
    substitute sep new skip as = substitute sep new 0 (as.drop skip) := by
  induction as generalizing skip with
  | nil => simp [substitute]
  | cons a as ih =>
    cases skip with
    | zero => rfl
    | succ skip => exact ih skip

/-- A text without the separator stays as it is. -/
theorem substitute_eq_self {as : List α} (h : ¬ sep <:+: as) : substitute sep new 0 as = as := by
  rw [← intercalate_cut, cut_of_not_infix sep h, List.intercalate_singleton]

/-- A separator replaced by one of its length: element by element, the text stays as it is or
changes as the separator does. -/
theorem forall₂_substitute {Rel : α → α → Prop} (hrefl : ∀ a, Rel a a)
    (hsep : List.Forall₂ Rel sep new) (hne : sep ≠ []) (as : List α) :
    List.Forall₂ Rel as (substitute sep new 0 as) := by
  induction hlen : as.length using Nat.strong_induction_on generalizing as with
  | _ n ih =>
    cases as with
    | nil => exact List.Forall₂.nil
    | cons a as =>
      rw [substitute]
      by_cases h : sep <+: a :: as
      · obtain ⟨rest, hrest⟩ := h
        have hdrop : as.drop (sep.length - 1) = rest := by
          obtain ⟨s, ss, rfl⟩ := List.exists_cons_of_ne_nil hne
          rw [List.cons_append] at hrest
          obtain ⟨-, rfl⟩ := List.cons.inj hrest
          simp
        have hlt : rest.length < n := by
          have hpos := List.length_pos_iff.mpr hne
          have hsum := congrArg List.length hrest
          rw [List.length_append, hlen] at hsum
          omega
        rw [if_pos ⟨rest, hrest⟩, substitute_skip, hdrop, ← hrest]
        exact List.rel_append hsep (ih _ hlt rest rfl)
      · rw [if_neg h]
        refine List.Forall₂.cons (hrefl a) (ih as.length ?_ as rfl)
        rw [← hlen]
        exact Nat.lt_succ_self _

/-- Where the result has an element that no replacement begins with, the text has it too. -/
theorem substitute_eq_cons {as rest : List α} {n x : α} {ns : List α} (hne : x ≠ n)
    (h : substitute sep (n :: ns) 0 as = x :: rest) :
    ∃ as', as = x :: as' ∧ rest = substitute sep (n :: ns) 0 as' := by
  cases as with
  | nil => cases h
  | cons a as =>
    rw [substitute] at h
    split at h
    · exact absurd (List.cons.inj h).1.symm hne
    · obtain ⟨rfl, rfl⟩ := List.cons.inj h
      exact ⟨as, rfl, rfl⟩

end substitute

end GwsMigrator.TextEdits
