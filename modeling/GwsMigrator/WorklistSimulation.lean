import GwsMigrator.Worklist

/-! Two worklists over one batch whose steps put off the same items: what relates their states
after each step relates them in the end. -/
namespace GwsMigrator.Worklist

variable {σ τ α κ : Type*} (step : Bool → σ → α → Bool × σ) (step' : Bool → τ → α → Bool × τ)

/-- Both steps at once, with a note of whether they have agreed so far. The first one says what is
put off. -/
def paired (d : Bool) (s : σ × τ × Bool) (a : α) : Bool × σ × τ × Bool :=
  ((step d s.1 a).1, (step d s.1 a).2, (step' d s.2.1 a).2,
    s.2.2 && ((step d s.1 a).1 == (step' d s.2.1 a).1))

variable {step step'}

/-- The end of a paired run from `s`, with what it puts off: it is the run of the first step, and
that of the second one too if the two have agreed. -/
structure Both (r : (σ × τ × Bool) × List α) (s : σ × τ × Bool) (first : σ × List α)
    (second : τ × List α) : Prop where
  fst : r.1.1 = first.1
  rest : r.2 = first.2
  agreed : r.1.2.2 = true → s.2.2 = true ∧ r.1.2.1 = second.1 ∧ r.2 = second.2

variable (step step') in
theorem runBatch_paired (d : Bool) (s : σ × τ × Bool) (as : List α) :
    Both (runBatch (paired step step') d s as) s (runBatch step d s.1 as)
      (runBatch step' d s.2.1 as) := by
  induction as generalizing s with
  | nil => exact ⟨rfl, rfl, fun h => ⟨h, rfl, rfl⟩⟩
  | cons a as ih =>
    obtain ⟨hfst, hrest, hagreed⟩ := ih (paired step step' d s a).2
    simp only [runBatch]
    refine ⟨hfst, ?_, fun h => ?_⟩
    · rw [hrest]
      rfl
    · obtain ⟨hnow, hsnd, hrest'⟩ := hagreed h
      simp only [paired, Bool.and_eq_true, beq_iff_eq] at hnow
      have hflag : (paired step step' d s a).1 = (step' d s.2.1 a).1 := hnow.2
      refine ⟨hnow.1, hsnd, ?_⟩
      rw [hrest', hflag]
      rfl

variable [DecidableEq κ] (key : α → κ) (parent : α → Option κ)

variable (step step') in
theorem runRound_paired (s : σ × τ × Bool) (deferred : List α) :
    Both (runRound (paired step step') key parent s deferred) s
      (runRound step key parent s.1 deferred) (runRound step' key parent s.2.1 deferred) := by
  have hbatch := runBatch_paired step step' true s deferred
  simp only [runRound]
  generalize runBatch (paired step step') true s deferred = r at hbatch ⊢
  obtain ⟨hfst, hrest, hagreed⟩ := hbatch
  by_cases hlength : r.2.length = deferred.length
  · -- no progress: the same orphans are forced on both sides
    have hforced := runBatch_paired step step' false r.1 (orphans key parent r.2)
    rw [if_pos hlength, if_pos (hrest ▸ hlength)]
    refine ⟨?_, ?_, fun h => ?_⟩
    · rw [hforced.fst, hfst, hrest]
    · rw [hrest]
    · obtain ⟨hbefore, hsnd, -⟩ := hforced.agreed h
      obtain ⟨hstart, hsnd', hrest'⟩ := hagreed hbefore
      rw [if_pos (hrest' ▸ hlength)]
      refine ⟨hstart, ?_, ?_⟩
      · rw [hsnd, hsnd', hrest']
      · rw [hrest']
  · rw [if_neg hlength, if_neg (hrest ▸ hlength)]
    refine ⟨hfst, hrest, fun h => ?_⟩
    obtain ⟨hstart, hsnd, hrest'⟩ := hagreed h
    rw [if_neg (hrest' ▸ hlength)]
    exact ⟨hstart, hsnd, hrest'⟩

variable (step step') in
theorem drain_paired (n : ℕ) (s : σ × τ × Bool) (deferred : List α) :
    let r := drain (paired step step') key parent n s deferred
    r.1 = drain step key parent n s.1 deferred ∧
      (r.2.2 = true → s.2.2 = true ∧ r.2.1 = drain step' key parent n s.2.1 deferred) := by
  induction n generalizing s deferred with
  | zero => exact ⟨rfl, fun h => ⟨h, rfl⟩⟩
  | succ n ih =>
    cases deferred with
    | nil => exact ⟨rfl, fun h => ⟨h, rfl⟩⟩
    | cons a as =>
      obtain ⟨hfst, hrest, hagreed⟩ := runRound_paired step step' key parent s (a :: as)
      simp only [drain]
      obtain ⟨hend, hended⟩ := ih (runRound (paired step step') key parent s (a :: as)).1
        (runRound (paired step step') key parent s (a :: as)).2
      refine ⟨?_, fun h => ?_⟩
      · rw [hend, hfst, hrest]
      · obtain ⟨hbefore, hsnd⟩ := hended h
        obtain ⟨hstart, hsnd', hrest'⟩ := hagreed hbefore
        refine ⟨hstart, ?_⟩
        rw [hsnd, hsnd', hrest']

variable (step step') in
theorem process_paired (s : σ) (t : τ) (items : List α) :
    let r := process (paired step step') key parent (s, t, true) items
    r.1 = process step key parent s items ∧
      (r.2.2 = true → r.2.1 = process step' key parent t items) := by
  obtain ⟨hfst, hrest, hagreed⟩ := runBatch_paired step step' true (s, t, true) items
  simp only [process]
  obtain ⟨hend, hended⟩ := drain_paired step step' key parent
    (runBatch (paired step step') true (s, t, true) items).2.length
    (runBatch (paired step step') true (s, t, true) items).1
    (runBatch (paired step step') true (s, t, true) items).2
  refine ⟨?_, fun h => ?_⟩
  · rw [hend, hfst, hrest]
  · obtain ⟨hbefore, hsnd⟩ := hended h
    obtain ⟨-, hsnd', hrest'⟩ := hagreed hbefore
    rw [hsnd, hsnd', hrest']

variable {key parent} in
/-- The simulation rule: in a batch with distinct keys, a relation that says which items both sides
put off, and that each step keeps, holds in the end. -/
theorem process_simulation {J : Set κ → σ → τ → Prop} {items : List α}
    (hnever : ∀ s a, (step false s a).1 = false)
    (hnodup : (items.map key).Nodup)
    (hstep : ∀ d P s t, ∀ a ∈ items, J P s t → key a ∉ P →
      (step d s a).1 = (step' d t a).1 ∧
        J (if (step d s a).1 then P else insert (key a) P) (step d s a).2 (step' d t a).2)
    (s : σ) (t : τ) (hstart : J ∅ s t) :
    ∃ P, (∀ a ∈ items, key a ∈ P) ∧
      J P (process step key parent s items) (process step' key parent t items) := by
  have hrule : StepRule (fun P (r : σ × τ × Bool) => r.2.2 = true ∧ J P r.1 r.2.1) items
      (paired step step') key parent := by
    refine .of_step (fun r a => hnever r.1 a) (fun d P r a ha hr hopen => ?_)
    obtain ⟨hflag, hnext⟩ := hstep d P r.1 r.2.1 a ha hr.2 hopen
    refine ⟨?_, hnext⟩
    simp only [paired, hr.1, hflag, beq_self_eq_true, Bool.and_self]
  obtain ⟨P, hall, hagreed, hJ⟩ := process_induction hrule hnodup (s, t, true) ⟨rfl, hstart⟩
  obtain ⟨hfst, hsnd⟩ := process_paired step step' key parent s t items
  refine ⟨P, hall, ?_⟩
  rw [hfst, hsnd hagreed] at hJ
  exact hJ

end GwsMigrator.Worklist
