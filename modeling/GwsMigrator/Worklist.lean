import Mathlib.Data.List.Nodup
import Mathlib.Data.Set.Insert
import Mathlib.Data.Set.Finite.Basic
import Mathlib.Order.WellFounded
import Mathlib.Logic.Relation

/-! A worklist that puts items off until their parents are done. A step may put its item
off; what is left is tried again, round by round, and when a round gets nowhere the items
whose parent is not waiting too are forced through. -/
namespace GwsMigrator.Worklist

variable {σ α κ : Type*}

section forest

variable (key : α → κ) (parent : α → Option κ) (items : List α)

/-- `p` is the parent of `x`, both in the batch. -/
def IsParent (p x : α) : Prop := p ∈ items ∧ x ∈ items ∧ parent x = some (key p)

/-- No item is its own ancestor. -/
def Acyclic : Prop := ∀ x, ¬ Relation.TransGen (IsParent key parent items) x x

variable {key parent items}

theorem Acyclic.wellFounded (h : Acyclic key parent items) :
    WellFounded (fun p x : { x // x ∈ items } => IsParent key parent items p.val x.val) := by
  have hfinite : Finite { x // x ∈ items } := (List.finite_toSet items).to_subtype
  let r : { x // x ∈ items } → { x // x ∈ items } → Prop :=
    fun p x => Relation.TransGen (IsParent key parent items) p.val x.val
  have htrans : IsTrans { x // x ∈ items } r := ⟨fun _ _ _ => Relation.TransGen.trans⟩
  have hirrefl : Std.Irrefl r := ⟨fun x => h x.val⟩
  have hwf : WellFounded r := Finite.wellFounded_of_trans_of_irrefl r
  exact Subrelation.wf (fun hp => Relation.TransGen.single hp) hwf

/-- Induction from the parents down. -/
theorem Acyclic.induction (h : Acyclic key parent items) {C : α → Prop}
    (hstep : ∀ x ∈ items, (∀ p, IsParent key parent items p x → C p) → C x) :
    ∀ x ∈ items, C x := by
  intro x hx
  have hall := h.wellFounded.induction (C := fun x => C x.val) ⟨x, hx⟩
    (fun y ih => hstep y.val y.property (fun p hp => ih ⟨p, hp.1⟩ hp))
  exact hall

/-- Parents that come before their children cannot form a cycle. -/
theorem acyclic_of_rank (rank : α → ℕ)
    (h : ∀ p x, IsParent key parent items p x → rank p < rank x) : Acyclic key parent items := by
  have hpath : ∀ a b, Relation.TransGen (IsParent key parent items) a b → rank a < rank b := by
    intro a b hab
    induction hab with
    | single hp => exact h a _ hp
    | tail _ hp ih => exact ih.trans (h _ _ hp)
  exact fun x hx => lt_irrefl _ (hpath x x hx)

end forest

variable [DecidableEq κ] (step : Bool → σ → α → Bool × σ) (key : α → κ) (parent : α → Option κ)

/-- One run over a batch, with the items it put off. `defer` says whether a step may. -/
def runBatch (defer : Bool) : σ → List α → σ × List α
  | s, [] => (s, [])
  | s, a :: as =>
    let r := step defer s a
    let rest := runBatch defer r.2 as
    (rest.1, if r.1 then a :: rest.2 else rest.2)

/-- The items whose parent is not waiting, or all of them if every parent is. -/
def orphans (rest : List α) : List α :=
  match rest.filter (fun a => (parent a).all (fun p => p ∉ rest.map key)) with
  | [] => rest
  | o => o

/-- One round of the loop: what is put off once more, or forced when nothing moved. -/
def runRound (s : σ) (deferred : List α) : σ × List α :=
  let r := runBatch step true s deferred
  if r.2.length = deferred.length then
    let o := orphans key parent r.2
    ((runBatch step false r.1 o).1, r.2.filter (fun a => key a ∉ o.map key))
  else r

/-- The loop, for at most so many rounds. -/
def drain : ℕ → σ → List α → σ
  | 0, s, _ => s
  | _ + 1, s, [] => s
  | n + 1, s, a :: as =>
    let r := runRound step key parent s (a :: as)
    drain n r.1 r.2

/-- The first run and the loop. Every round settles an item, so as many rounds as there are
items put off are enough. -/
def process (s : σ) (items : List α) : σ :=
  let r := runBatch step true s items
  drain step key parent r.2.length r.1 r.2

variable {step key parent}

variable (key parent) in
theorem orphans_sublist (rest : List α) : (orphans key parent rest).Sublist rest := by
  unfold orphans
  split
  · exact List.Sublist.refl rest
  · exact List.filter_sublist

variable (key parent) in
theorem orphans_ne_nil {rest : List α} (h : rest ≠ []) : orphans key parent rest ≠ [] := by
  unfold orphans
  split
  · exact h
  · assumption

/-- In a batch without cycles an orphan has no parent among the waiting. -/
theorem parent_of_orphan {items rest : List α} (hacyclic : Acyclic key parent items)
    (hrest : ∀ x ∈ rest, x ∈ items) {a : α} (ha : a ∈ orphans key parent rest) {p : κ}
    (hp : parent a = some p) : p ∉ rest.map key := by
  -- some item left over has its parent outside, or the links would go round
  have hfree : ∃ x ∈ rest, (parent x).all (fun p => p ∉ rest.map key) = true := by
    by_contra hall
    have hnone : ∀ x ∈ items, x ∉ rest := by
      refine hacyclic.induction (fun x hx ih hmem => ?_)
      apply hall
      refine ⟨x, hmem, ?_⟩
      cases hq : parent x with
      | none => rfl
      | some q =>
        simp only [Option.all_some, decide_eq_true_eq]
        intro hqmem
        obtain ⟨y, hy, rfl⟩ := List.mem_map.mp hqmem
        exact ih y ⟨hrest y hy, hx, hq⟩ hy
    have hmem := (orphans_sublist key parent rest).subset ha
    exact hnone a (hrest a hmem) hmem
  unfold orphans at ha
  split at ha
  · next heq =>
    obtain ⟨x, hx, hxp⟩ := hfree
    exact absurd hxp (List.filter_eq_nil_iff.mp heq x hx)
  · have hall := (List.mem_filter.mp ha).2
    rw [hp] at hall
    simpa using hall

/-- When an orphan is forced, no item that it waits for is still to come. -/
theorem parent_settled {items rest : List α} (hacyclic : Acyclic key parent items)
    (hrest : ∀ x ∈ rest, x ∈ items) {a : α} (ha : a ∈ orphans key parent rest) {P : Set κ}
    (hwait : ∀ b ∈ items, key b ∉ P → b ∈ rest) {p : κ} (hp : parent a = some p) :
    ∀ q ∈ items, key q = p → p ∈ P := by
  rintro q hq rfl
  by_contra hopen
  -- it would still wait, and then `a` is no orphan
  exact parent_of_orphan hacyclic hrest ha hp (List.mem_map_of_mem (hwait q hq hopen))

variable (step) in
theorem runBatch_sublist (defer : Bool) (s : σ) (as : List α) :
    (runBatch step defer s as).2.Sublist as := by
  induction as generalizing s with
  | nil => exact List.Sublist.refl []
  | cons a as ih =>
    simp only [runBatch]
    split
    · exact (ih _).cons_cons a
    · exact (ih _).cons a

variable (step key parent) in
/-- Every round of a nonempty worklist makes it shorter. -/
theorem round_length_lt (s : σ) {deferred : List α} (h : deferred ≠ []) :
    (runRound step key parent s deferred).2.length < deferred.length := by
  have hsub := runBatch_sublist step true s deferred
  have hle := hsub.length_le
  unfold runRound
  simp only
  split
  · next heq =>
    have hrest : (runBatch step true s deferred).2 ≠ [] := by
      rw [← List.length_pos_iff, heq]
      exact List.length_pos_iff.mpr h
    obtain ⟨a, ha⟩ := List.exists_mem_of_ne_nil _ (orphans_ne_nil key parent hrest)
    -- the orphan that is forced leaves the worklist
    have hlt : ((runBatch step true s deferred).2.filter (fun b => key b ∉
        (orphans key parent (runBatch step true s deferred).2).map key)).length <
          (runBatch step true s deferred).2.length := by
      apply List.length_filter_lt_length_iff_exists.mpr
      refine ⟨a, (orphans_sublist key parent _).subset ha, ?_⟩
      simpa using ⟨a, ha, rfl⟩
    exact lt_of_lt_of_le hlt hle
  · next hne => exact lt_of_le_of_ne hle hne

/-- Any two numbers of rounds that are enough give the same end. -/
theorem drain_rounds (n m : ℕ) (s : σ) (deferred : List α) (hn : deferred.length ≤ n)
    (hm : deferred.length ≤ m) :
    drain step key parent n s deferred = drain step key parent m s deferred := by
  induction n generalizing m s deferred with
  | zero =>
    obtain rfl : deferred = [] := List.length_eq_zero_iff.mp (by omega)
    cases m <;> rfl
  | succ n ih =>
    cases deferred with
    | nil => cases m <;> rfl
    | cons a as =>
      obtain ⟨m, rfl⟩ : ∃ k, m = k + 1 := ⟨m - 1, by simp at hm; omega⟩
      have hlt := round_length_lt step key parent s
        (List.cons_ne_nil a as)
      simp only [drain]
      exact ih m _ _ (by omega) (by omega)

/-- The loop as the source has it: one round, then the loop over what is left. -/
theorem drain_cons (s : σ) (a : α) (as : List α) :
    drain step key parent (a :: as).length s (a :: as) =
      drain step key parent (runRound step key parent s (a :: as)).2.length
        (runRound step key parent s (a :: as)).1 (runRound step key parent s (a :: as)).2 := by
  have hlt := round_length_lt step key parent s
    (List.cons_ne_nil a as)
  rw [List.length_cons] at hlt ⊢
  simp only [drain]
  exact drain_rounds _ _ _ _ (by omega) (le_refl _)

variable (step key parent) in
/-- The loop of the source, however many rounds it takes: it goes on while items are put off, and
ends in a state when none is. -/
inductive LoopEnds : σ → List α → σ → Prop
  | done (s : σ) : LoopEnds s [] s
  | round {s s' : σ} {deferred : List α} : deferred ≠ [] →
      LoopEnds (runRound step key parent s deferred).1 (runRound step key parent s deferred).2 s' →
      LoopEnds s deferred s'

theorem drain_ends (n : ℕ) (s : σ) (deferred : List α) (hn : deferred.length ≤ n) :
    LoopEnds step key parent s deferred (drain step key parent n s deferred) := by
  induction n generalizing s deferred with
  | zero =>
    obtain rfl : deferred = [] := List.length_eq_zero_iff.mp (by omega)
    exact LoopEnds.done s
  | succ n ih =>
    cases deferred with
    | nil => exact LoopEnds.done s
    | cons a as =>
      have hlt := round_length_lt step key parent s (List.cons_ne_nil a as)
      exact LoopEnds.round (List.cons_ne_nil a as) (ih _ _ (by omega))

variable (step key parent) in
/-- The loop behind the first run ends, for every batch, whatever its keys and parents are. -/
theorem process_ends (s : σ) (items : List α) :
    LoopEnds step key parent (runBatch step true s items).1 (runBatch step true s items).2
      (process step key parent s items) :=
  drain_ends _ _ _ (le_refl _)

section invariants

variable {I : σ → Prop} {items : List α}

variable (step) in
omit [DecidableEq κ] in
theorem runBatch_invariant (hstep : ∀ d s, ∀ a ∈ items, I s → I (step d s a).2) (d : Bool)
    (as : List α) (has : ∀ a ∈ as, a ∈ items) (s : σ) (hs : I s) :
    I (runBatch step d s as).1 := by
  induction as generalizing s with
  | nil => exact hs
  | cons a as ih =>
    exact ih (fun b hb => has b (List.mem_cons_of_mem a hb)) _
      (hstep d s a (has a List.mem_cons_self) hs)

theorem drain_invariant (hstep : ∀ d s, ∀ a ∈ items, I s → I (step d s a).2) (n : ℕ)
    (as : List α) (has : ∀ a ∈ as, a ∈ items) (s : σ) (hs : I s) :
    I (drain step key parent n s as) := by
  induction n generalizing s as with
  | zero => exact hs
  | succ n ih =>
    cases as with
    | nil => exact hs
    | cons a as =>
      have hsub := runBatch_sublist step true s (a :: as)
      have hrun := runBatch_invariant step hstep true (a :: as) has s hs
      simp only [drain]
      have hround : I (runRound step key parent s (a :: as)).1 ∧
          ∀ b ∈ (runRound step key parent s (a :: as)).2, b ∈ items := by
        simp only [runRound]
        split
        · refine ⟨runBatch_invariant step hstep false _ (fun b hb => ?_) _ hrun, fun b hb => ?_⟩
          · exact has b (hsub.subset ((orphans_sublist key parent _).subset hb))
          · exact has b (hsub.subset (List.mem_filter.mp hb).1)
        · exact ⟨hrun, fun b hb => has b (hsub.subset hb)⟩
      exact ih _ hround.2 _ hround.1

variable (step key parent) in
/-- What every step keeps, the whole of it keeps. -/
theorem process_invariant (hstep : ∀ d s, ∀ a ∈ items, I s → I (step d s a).2) (s : σ)
    (hs : I s) : I (process step key parent s items) := by
  have hsub := runBatch_sublist step true s items
  exact drain_invariant hstep _ _ (fun a ha => hsub.subset ha) _
    (runBatch_invariant step hstep true items (fun _ h => h) s hs)

end invariants

variable (step) in
omit [DecidableEq κ] in
theorem runBatch_append (d : Bool) (s : σ) (as bs : List α) :
    runBatch step d s (as ++ bs) =
      ((runBatch step d (runBatch step d s as).1 bs).1,
        (runBatch step d s as).2 ++ (runBatch step d (runBatch step d s as).1 bs).2) := by
  induction as generalizing s with
  | nil => rfl
  | cons a as ih =>
    simp only [List.cons_append, runBatch, ih]
    split <;> rfl

variable (parent) in
/-- Items of which none is put off come first. -/
theorem process_append (s : σ) {as bs : List α} (h : (runBatch step true s as).2 = []) :
    process step key parent s (as ++ bs) =
      process step key parent (runBatch step true s as).1 bs := by
  simp only [process, runBatch_append, h, List.nil_append]

omit [DecidableEq κ] in
theorem runBatch_settled (hnever : ∀ s a, (step false s a).1 = false) (s : σ) (as : List α) :
    (runBatch step false s as).2 = [] := by
  induction as generalizing s with
  | nil => rfl
  | cons a as ih =>
    simp only [runBatch, hnever, Bool.false_eq_true, if_false]
    exact ih _

section trace

/-- A step that was taken: whether it could put its item off, the state before it, the item. -/
abbrev Taken (σ α : Type*) := Bool × σ × α

/-- The step that also notes the steps taken, newest first. -/
def traced (step : Bool → σ → α → Bool × σ) (defer : Bool) (s : σ × List (Taken σ α)) (a : α) :
    Bool × σ × List (Taken σ α) :=
  let r := step defer s.1 a
  (r.1, r.2, (defer, s.1, a) :: s.2)

/-- Every step that `process` takes. -/
def visited (step : Bool → σ → α → Bool × σ) (key : α → κ) (parent : α → Option κ) (s : σ)
    (items : List α) : List (Taken σ α) :=
  (process (traced step) key parent (s, []) items).2

variable (step) in
omit [DecidableEq κ] in
theorem runBatch_traced (d : Bool) (s : σ) (tr : List (Taken σ α)) (as : List α) :
    (runBatch (traced step) d (s, tr) as).1.1 = (runBatch step d s as).1 ∧
      (runBatch (traced step) d (s, tr) as).2 = (runBatch step d s as).2 := by
  induction as generalizing s tr with
  | nil => exact ⟨rfl, rfl⟩
  | cons a as ih =>
    obtain ⟨h₁, h₂⟩ := ih (step d s a).2 ((d, s, a) :: tr)
    simp only [runBatch, traced] at h₁ h₂ ⊢
    refine ⟨h₁, ?_⟩
    rw [h₂]
    rfl

theorem drain_traced (n : ℕ) (s : σ) (tr : List (Taken σ α)) (as : List α) :
    (drain (traced step) key parent n (s, tr) as).1 = drain step key parent n s as := by
  induction n generalizing s tr as with
  | zero => rfl
  | succ n ih =>
    cases as with
    | nil => rfl
    | cons a as =>
      -- the notes never decide anything, so each round puts off the same items
      have hround : (runRound (traced step) key parent (s, tr) (a :: as)).1.1 =
            (runRound step key parent s (a :: as)).1 ∧
          (runRound (traced step) key parent (s, tr) (a :: as)).2 =
            (runRound step key parent s (a :: as)).2 := by
        obtain ⟨h₁, h₂⟩ := runBatch_traced step true s tr (a :: as)
        simp only [runRound]
        rw [h₂]
        split
        · refine ⟨?_, rfl⟩
          rw [← h₁]
          exact (runBatch_traced step false _ _ _).1
        · exact ⟨h₁, h₂⟩
      simp only [drain]
      rw [hround.2, ← hround.1]
      exact ih _ _ _

theorem process_traced (s : σ) (items : List α) :
    (process (traced step) key parent (s, []) items).1 = process step key parent s items := by
  obtain ⟨h₁, h₂⟩ := runBatch_traced step true s [] items
  simp only [process]
  rw [← Prod.mk.eta (p := (runBatch (traced step) true (s, []) items).1), drain_traced, h₁, h₂]

/-- The steps of a single run over a batch. -/
def batchVisited (step : Bool → σ → α → Bool × σ) (defer : Bool) (s : σ) (as : List α) :
    List (Taken σ α) :=
  (runBatch (traced step) defer (s, []) as).1.2

omit [DecidableEq κ] in
theorem runBatch_guarded {I : σ → Prop} {ok : σ → α → Prop} {items : List α}
    (hstep : ∀ d s, ∀ a ∈ items, I s → ok s a → I (step d s a).2) (d : Bool) (s : σ)
    (hok : ∀ x ∈ batchVisited step d s items, ok x.2.1 x.2.2) (hs : I s) :
    I (runBatch step d s items).1 := by
  have hinv := runBatch_invariant (traced step)
    (I := fun t => (∀ x ∈ t.2, ok x.2.1 x.2.2) → I t.1)
    (fun d t a ha ht hnoted =>
      hstep d t.1 a ha (ht (fun x hx => hnoted x (List.mem_cons_of_mem _ hx)))
        (hnoted (d, t.1, a) List.mem_cons_self))
    d items (fun _ h => h) (s, []) (fun _ => hs)
  have hend := hinv hok
  rw [(runBatch_traced step d s [] items).1] at hend
  exact hend

/-- The invariant rule for runs whose steps all meet a condition in the state they start in. -/
theorem process_guarded {I : σ → Prop} {ok : σ → α → Prop} {items : List α}
    (hstep : ∀ d s, ∀ a ∈ items, I s → ok s a → I (step d s a).2) (s : σ)
    (hok : ∀ x ∈ visited step key parent s items, ok x.2.1 x.2.2) (hs : I s) :
    I (process step key parent s items) := by
  -- the invariant is kept as long as every step noted so far met the condition
  have hinv := process_invariant (traced step) key parent
    (I := fun t => (∀ x ∈ t.2, ok x.2.1 x.2.2) → I t.1)
    (fun d t a ha ht hnoted =>
      hstep d t.1 a ha (ht (fun x hx => hnoted x (List.mem_cons_of_mem _ hx)))
        (hnoted (d, t.1, a) List.mem_cons_self))
    (s, []) (fun _ => hs)
  have hend := hinv hok
  rw [process_traced] at hend
  exact hend

variable (step) in
/-- The items that were not put off, newest first. -/
def settled (tr : List (Taken σ α)) : List α :=
  (tr.filter (fun x => !(step x.1 x.2.1 x.2.2).1)).map (fun x => x.2.2)

variable (step) in
omit [DecidableEq κ] in
/-- What a run over a batch does not settle it puts off. -/
theorem runBatch_settled_perm (d : Bool) (s : σ × List (Taken σ α)) (as : List α) :
    (settled step (runBatch (traced step) d s as).1.2 ++ (runBatch (traced step) d s as).2).Perm
      (settled step s.2 ++ as) := by
  induction as generalizing s with
  | nil => exact List.Perm.refl _
  | cons a as ih =>
    have hrest := ih (traced step d s a).2
    rw [runBatch]
    cases hput : (traced step d s a).1 with
    | true =>
      have hsame : settled step (traced step d s a).2.2 = settled step s.2 := by
        have hoff : (step d s.1 a).1 = true := hput
        simp [settled, traced, hoff]
      rw [hsame] at hrest
      exact List.perm_middle.trans ((hrest.cons a).trans List.perm_middle.symm)
    | false =>
      have hone : settled step (traced step d s a).2.2 = a :: settled step s.2 := by
        have hoff : (step d s.1 a).1 = false := hput
        simp [settled, traced, hoff]
      rw [hone] at hrest
      exact hrest.trans List.perm_middle.symm

variable (key) in
/-- A part of a list with distinct keys, and the elements with other keys. -/
theorem sublist_append_perm {part rest : List α} (h : part.Sublist rest)
    (hnodup : (rest.map key).Nodup) :
    (part ++ rest.filter (fun a => key a ∉ part.map key)).Perm rest := by
  induction h with
  | slnil => exact List.Perm.refl _
  | @cons part rest a h ih =>
    obtain ⟨hnotin, hnodup'⟩ := List.nodup_cons.mp hnodup
    have ha : key a ∉ part.map key := fun hmem => hnotin ((h.map key).subset hmem)
    rw [List.filter_cons, if_pos (by simpa using ha)]
    exact List.perm_middle.trans ((ih hnodup').cons a)
  | @cons_cons part rest a h ih =>
    obtain ⟨hnotin, hnodup'⟩ := List.nodup_cons.mp hnodup
    have hrest : rest.filter (fun b => key b ∉ (a :: part).map key) =
        rest.filter (fun b => key b ∉ part.map key) := by
      apply List.filter_congr
      intro b hb
      have hne : key b ≠ key a := fun he => hnotin (he ▸ List.mem_map_of_mem hb)
      simp [hne]
    rw [List.filter_cons, if_neg (by simp), hrest]
    exact (ih hnodup').cons a

variable (parent) in
theorem round_settled_perm (hnever : ∀ s a, (step false s a).1 = false)
    (s : σ × List (Taken σ α)) (deferred : List α) (hnodup : (deferred.map key).Nodup) :
    (settled step (runRound (traced step) key parent s deferred).1.2 ++
        (runRound (traced step) key parent s deferred).2).Perm
      (settled step s.2 ++ deferred) := by
  have hfirst := runBatch_settled_perm step true s deferred
  have hsub := runBatch_sublist (traced step) true s deferred
  rw [runRound]
  set first := runBatch (traced step) true s deferred
  simp only
  split
  · -- the orphans are forced, and the others go on waiting
    have hforced := runBatch_settled_perm step false first.1 (orphans key parent first.2)
    have hnone : (runBatch (traced step) false first.1 (orphans key parent first.2)).2 = [] := by
      rw [(runBatch_traced step false first.1.1 first.1.2 _).2]
      exact runBatch_settled hnever _ _
    rw [hnone, List.append_nil] at hforced
    have hrest := sublist_append_perm key (orphans_sublist key parent first.2)
      (hnodup.sublist (hsub.map key))
    refine (hforced.append_right _).trans ?_
    rw [List.append_assoc]
    exact (hrest.append_left _).trans hfirst
  · exact hfirst

variable (parent) in
theorem drain_settled_perm (hnever : ∀ s a, (step false s a).1 = false) (n : ℕ)
    (s : σ × List (Taken σ α)) (deferred : List α) (hn : deferred.length ≤ n)
    (hnodup : (deferred.map key).Nodup) :
    (settled step (drain (traced step) key parent n s deferred).2).Perm
      (settled step s.2 ++ deferred) := by
  induction n generalizing s deferred with
  | zero =>
    obtain rfl : deferred = [] := List.length_eq_zero_iff.mp (by omega)
    rw [List.append_nil]
    exact List.Perm.refl _
  | succ n ih =>
    cases deferred with
    | nil =>
      rw [List.append_nil]
      exact List.Perm.refl _
    | cons a as =>
      have hlt := round_length_lt (traced step) key parent s (List.cons_ne_nil a as)
      have hround := round_settled_perm parent hnever s (a :: as) hnodup
      simp only [drain]
      refine (ih _ _ (by omega) ?_).trans hround
      -- what is left comes from the batch
      refine List.Nodup.sublist (List.Sublist.map key ?_) hnodup
      have hsub := runBatch_sublist (traced step) true s (a :: as)
      simp only [runRound]
      split
      · exact List.filter_sublist.trans hsub
      · exact hsub

variable (step key parent) in
/-- In a batch with distinct keys every item is settled, and by one step only. -/
theorem process_settled_perm (hnever : ∀ s a, (step false s a).1 = false) (s : σ) (items : List α)
    (hnodup : (items.map key).Nodup) :
    (settled step (visited step key parent s items)).Perm items := by
  have hfirst := runBatch_settled_perm step true (s, []) items
  have hsub := runBatch_sublist (traced step) true (s, []) items
  have hloop := drain_settled_perm parent hnever _
    (runBatch (traced step) true (s, []) items).1 (runBatch (traced step) true (s, []) items).2
    (le_refl _) (hnodup.sublist (hsub.map key))
  exact hloop.trans hfirst

end trace

section induction

variable {J : Set κ → σ → Prop} {items : List α}

omit [DecidableEq κ] in
/-- The settled keys after one step. -/
theorem mem_settled_iff {putOff : Bool} {P : Set κ} {k k' : κ} :
    k' ∈ (if putOff then P else insert k P) ↔ k' ∈ P ∨ (putOff = false ∧ k' = k) := by
  cases putOff with
  | true => simp
  | false => simp [or_comm]

variable (J) in
/-- Some state that the invariant allows put the item off. -/
def PutOff (step : Bool → σ → α → Bool × σ) (key : α → κ) (d : Bool) (a : α) : Prop :=
  ∃ P s, J P s ∧ key a ∉ P ∧ (step d s a).1 = true

variable (step key) in
omit [DecidableEq κ] in
theorem runBatch_rule (d : Bool) (Q : Set κ → Prop)
    (hQ : ∀ P P', P ⊆ P' → Q P → Q P') (batch : List α)
    (hstep : ∀ P s, ∀ a ∈ batch, Q P → J P s → key a ∉ P →
      J (if (step d s a).1 then P else insert (key a) P) (step d s a).2)
    (hnodup : (batch.map key).Nodup) (P : Set κ) (s : σ) (hP : ∀ a ∈ batch, key a ∉ P)
    (hq : Q P) (hJ : J P s) :
    ∃ P', P ⊆ P' ∧ (∀ k ∈ P', k ∈ P ∨ k ∈ batch.map key) ∧ J P' (runBatch step d s batch).1 ∧
      (∀ a ∈ batch, a ∈ (runBatch step d s batch).2 ↔ key a ∉ P') ∧
      ∀ a ∈ (runBatch step d s batch).2, PutOff J step key d a := by
  induction batch generalizing P s with
  | nil =>
    exact ⟨P, le_refl _, fun _ h => Or.inl h, hJ, fun _ h => absurd h List.not_mem_nil,
      fun _ h => absurd h List.not_mem_nil⟩
  | cons a as ih =>
    obtain ⟨hnotin, hnodup'⟩ := List.nodup_cons.mp hnodup
    have hne : ∀ b ∈ as, key b ≠ key a := by
      intro b hb he
      exact hnotin (he ▸ List.mem_map_of_mem hb)
    have ha := hP a List.mem_cons_self
    have hone := hstep P s a List.mem_cons_self hq hJ ha
    set P₁ : Set κ := if (step d s a).1 then P else insert (key a) P with hP₁
    have hmem₁ : ∀ k, k ∈ P₁ ↔ k ∈ P ∨ ((step d s a).1 = false ∧ k = key a) :=
      fun k => mem_settled_iff
    have hsub₁ : P ⊆ P₁ := fun k hk => (hmem₁ k).mpr (Or.inl hk)
    have hP₁as : ∀ b ∈ as, key b ∉ P₁ := by
      intro b hb hmem
      rcases (hmem₁ _).mp hmem with hmem | ⟨-, he⟩
      · exact hP b (List.mem_cons_of_mem a hb) hmem
      · exact hne b hb he
    obtain ⟨P', hsub, hkeys, hJ', hstill, hoff⟩ := ih
      (fun P s b hb => hstep P s b (List.mem_cons_of_mem a hb)) hnodup' P₁ (step d s a).2 hP₁as
      (hQ P P₁ hsub₁ hq) hone
    -- the head is settled by its own step or not at all, the keys being distinct
    have haP' : key a ∈ P' ↔ (step d s a).1 = false := by
      constructor
      · intro hk
        rcases hkeys _ hk with hk | hk
        · exact (((hmem₁ _).mp hk).resolve_left ha).1
        · exact absurd hk hnotin
      · exact fun hfalse => hsub ((hmem₁ _).mpr (Or.inr ⟨hfalse, rfl⟩))
    refine ⟨P', hsub₁.trans hsub, fun k hk => ?_, hJ', fun b hb => ?_, fun b hb => ?_⟩
    · rcases hkeys k hk with hk | hk
      · rcases (hmem₁ k).mp hk with hk | ⟨-, rfl⟩
        · exact Or.inl hk
        · exact Or.inr List.mem_cons_self
      · exact Or.inr (List.mem_cons_of_mem _ hk)
    · have hsubl := runBatch_sublist step d (step d s a).2 as
      simp only [runBatch]
      rcases List.mem_cons.mp hb with rfl | hb
      · rw [haP']
        cases hr : (step d s b).1 with
        | true => simp
        | false =>
          simp only [Bool.false_eq_true, if_false, not_true_eq_false, iff_false]
          exact fun hmem => hnotin (List.mem_map_of_mem (hsubl.subset hmem))
      · rw [← hstill b hb]
        have hba : b ≠ a := fun he => hne b hb (he ▸ rfl)
        cases (step d s a).1 <;> simp [hba]
    · simp only [runBatch] at hb
      cases hr : (step d s a).1 with
      | true =>
        rw [hr, if_pos rfl] at hb
        rcases List.mem_cons.mp hb with rfl | hb
        · exact ⟨P, s, hJ, ha, hr⟩
        · exact hoff b hb
      | false =>
        rw [hr, if_neg Bool.false_ne_true] at hb
        exact hoff b hb

variable (J items) in
/-- What a step has to keep of an invariant about the settled keys: an item that is put off
leaves the keys alone, an orphan is forced while every unsettled item still waits, and those that
wait have been put off. -/
structure StepRule (step : Bool → σ → α → Bool × σ) (key : α → κ) (parent : α → Option κ) :
    Prop where
  never : ∀ s a, (step false s a).1 = false
  run : ∀ P s, ∀ a ∈ items, J P s → key a ∉ P →
    J (if (step true s a).1 then P else insert (key a) P) (step true s a).2
  orphan : ∀ P s rest, ∀ a ∈ items, (∀ b ∈ rest, b ∈ items) → a ∈ orphans key parent rest →
    (∀ b ∈ items, key b ∉ P → b ∈ rest) → (∀ b ∈ rest, PutOff J step key true b) → J P s →
    key a ∉ P → J (insert (key a) P) (step false s a).2

omit [DecidableEq κ] in
/-- The settled keys are those of the rule, too, if a forced item is never put off. -/
theorem insert_of_never (hnever : ∀ s a, (step false s a).1 = false) {P : Set κ} {s : σ} {a : α}
    (h : J (if (step false s a).1 then P else insert (key a) P) (step false s a).2) :
    J (insert (key a) P) (step false s a).2 := by
  rwa [hnever, if_neg Bool.false_ne_true] at h

/-- The rule, from what a step keeps whether it may put the item off or not. -/
theorem StepRule.of_step (hnever : ∀ s a, (step false s a).1 = false)
    (hstep : ∀ d P s, ∀ a ∈ items, J P s → key a ∉ P →
      J (if (step d s a).1 then P else insert (key a) P) (step d s a).2) :
    StepRule J items step key parent where
  never := hnever
  run P s a ha hJ hopen := hstep true P s a ha hJ hopen
  orphan P s _ a ha _ _ _ _ hJ hopen := insert_of_never hnever (hstep false P s a ha hJ hopen)

/-- The same without cycles, where a forced item finds its parent settled. -/
theorem StepRule.of_acyclic (hacyclic : Acyclic key parent items)
    (hnever : ∀ s a, (step false s a).1 = false)
    (hstep : ∀ d P s, ∀ a ∈ items, J P s → key a ∉ P →
      (d = false → ∀ p, parent a = some p → ∀ q ∈ items, key q = p → p ∈ P) →
      J (if (step d s a).1 then P else insert (key a) P) (step d s a).2) :
    StepRule J items step key parent where
  never := hnever
  run P s a ha hJ hopen := hstep true P s a ha hJ hopen (fun hfalse => Bool.noConfusion hfalse)
  orphan P s rest a ha hrest horphan hwait _ hJ hopen := by
    have hparent : ∀ p, parent a = some p → ∀ q ∈ items, key q = p → p ∈ P :=
      fun p hp => parent_settled hacyclic hrest horphan hwait hp
    exact insert_of_never hnever (hstep false P s a ha hJ hopen (fun _ => hparent))

/-- Where the loop stands: the invariant, with the worklist holding what is not settled. -/
structure Standing (J : Set κ → σ → Prop) (items : List α) (key : α → κ) (P : Set κ) (s : σ)
    (deferred : List α) : Prop where
  inv : J P s
  sub : deferred.Sublist items
  waiting : ∀ a ∈ items, a ∈ deferred ↔ key a ∉ P

theorem Standing.next (hrule : StepRule J items step key parent)
    (hnodup : (items.map key).Nodup) {P : Set κ} {s : σ} {deferred : List α}
    (h : Standing J items key P s deferred) :
    ∃ P', Standing J items key P' (runRound step key parent s deferred).1
      (runRound step key parent s deferred).2 := by
  have hmem : ∀ a ∈ deferred, a ∈ items := fun a ha => h.sub.subset ha
  have hdef : (deferred.map key).Nodup := hnodup.sublist (h.sub.map key)
  obtain ⟨P₁, hsub₁, hkeys₁, hJ₁, hstill₁, hoff₁⟩ := runBatch_rule step key true
    (fun _ => True) (fun _ _ _ _ => trivial) deferred
    (fun P s a ha _ hJ hk => hrule.run P s a (hmem a ha) hJ hk) hdef P s
    (fun a ha => (h.waiting a (hmem a ha)).mp ha) trivial h.inv
  have hrsub := runBatch_sublist step true s deferred
  set rest := (runBatch step true s deferred).2 with hrest
  have hrestItems : ∀ b ∈ rest, b ∈ items := fun b hb => hmem b (hrsub.subset hb)
  have hwait₁ : ∀ a ∈ items, a ∈ rest ↔ key a ∉ P₁ := by
    intro a ha
    constructor
    · exact fun hr => (hstill₁ a (hrsub.subset hr)).mp hr
    · intro hk
      have hd : a ∈ deferred := (h.waiting a ha).mpr (fun hp => hk (hsub₁ hp))
      exact (hstill₁ a hd).mpr hk
  simp only [runRound, ← hrest]
  by_cases heq : rest.length = deferred.length
  · rw [if_pos heq]
    have hosub := orphans_sublist key parent rest
    -- every forced item finds the unsettled ones still in `rest`
    obtain ⟨P₂, hsub₂, hkeys₂, hJ₂, hstill₂, -⟩ := runBatch_rule step key false
      (fun P => ∀ b ∈ items, key b ∉ P → b ∈ rest)
      (fun P P' hPP' hq b hb hk => hq b hb (fun hp => hk (hPP' hp)))
      (orphans key parent rest)
      (fun P s a ha hq hJ hk => by
        rw [hrule.never, if_neg Bool.false_ne_true]
        exact hrule.orphan P s rest a (hrestItems a (hosub.subset ha)) hrestItems ha hq hoff₁ hJ
          hk)
      (hnodup.sublist ((hosub.trans (hrsub.trans h.sub)).map key)) P₁
      (runBatch step true s deferred).1
      (fun a ha => (hwait₁ a (hrestItems a (hosub.subset ha))).mp (hosub.subset ha))
      (fun b hb hk => (hwait₁ b hb).mpr hk) hJ₁
    refine ⟨P₂, hJ₂, List.filter_sublist.trans (hrsub.trans h.sub), fun a ha => ?_⟩
    rw [List.mem_filter, hwait₁ a ha, decide_eq_true_eq]
    constructor
    · rintro ⟨hk₁, hko⟩ hk₂
      rcases hkeys₂ _ hk₂ with hk | hk
      · exact hk₁ hk
      · exact hko hk
    · intro hk₂
      refine ⟨fun hk => hk₂ (hsub₂ hk), fun hko => ?_⟩
      obtain ⟨b, hb, hbk⟩ := List.mem_map.mp hko
      have hset : key b ∈ P₂ := by
        by_contra hnot
        have hleft := (hstill₂ b hb).mpr hnot
        rw [runBatch_settled hrule.never] at hleft
        exact List.not_mem_nil hleft
      exact hk₂ (hbk ▸ hset)
  · rw [if_neg heq]
    exact ⟨P₁, hJ₁, hrsub.trans h.sub, hwait₁⟩

theorem Standing.drain (hrule : StepRule J items step key parent)
    (hnodup : (items.map key).Nodup) (n : ℕ) {P : Set κ} {s : σ} {deferred : List α}
    (hn : deferred.length ≤ n) (h : Standing J items key P s deferred) :
    ∃ P', (∀ a ∈ items, key a ∈ P') ∧ J P' (drain step key parent n s deferred) := by
  induction n generalizing P s deferred with
  | zero =>
    obtain rfl : deferred = [] := List.length_eq_zero_iff.mp (by omega)
    exact ⟨P, fun a ha => by simpa using (h.waiting a ha).not, h.inv⟩
  | succ n ih =>
    cases deferred with
    | nil => exact ⟨P, fun a ha => by simpa using (h.waiting a ha).not, h.inv⟩
    | cons a as =>
      have hlt := round_length_lt step key parent s
        (List.cons_ne_nil a as)
      obtain ⟨P', hround⟩ := h.next hrule hnodup
      simp only [GwsMigrator.Worklist.drain]
      exact ih (by omega) hround

/-- The induction rule: in a batch with distinct keys every item is settled in the end, one
by one, with the invariant. -/
theorem process_induction (hrule : StepRule J items step key parent)
    (hnodup : (items.map key).Nodup) (s : σ) (hs : J ∅ s) :
    ∃ P, (∀ a ∈ items, key a ∈ P) ∧ J P (process step key parent s items) := by
  obtain ⟨P, -, -, hJ, hstill, -⟩ := runBatch_rule step key true
    (fun _ => True) (fun _ _ _ _ => trivial) items
    (fun P s a ha _ hJ hk => hrule.run P s a ha hJ hk) hnodup ∅ s
    (fun _ _ h => h) trivial hs
  have hstand : Standing J items key P (runBatch step true s items).1
      (runBatch step true s items).2 := ⟨hJ, runBatch_sublist step true s items, hstill⟩
  exact hstand.drain hrule hnodup _ (le_refl _)

end induction

end GwsMigrator.Worklist
