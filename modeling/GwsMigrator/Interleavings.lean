import GwsMigrator.GuardedRuns
import GwsMigrator.Programs
import Mathlib.Data.Set.Lattice
import Mathlib.Logic.Function.Basic
import Mathlib.Order.CompletePartialOrder

/-! Programs that run side by side on one store, one request at a time in any order. Programs
whose requests stay in places of their own do what each of them does alone. -/
namespace GwsMigrator.Interleavings
open Dialogue

variable {ι Req S P L α : Type} {Ans : Req → Type} {V : L → Type}

/-- A program under way, with the state that only it sees. -/
structure Proc (Ans : Req → Type) (P α : Type) where
  own : P
  todo : Program Ans α

/-- What a program has returned, once it has come to its end. -/
def Proc.result : Proc Ans P α → Option α
  | ⟨_, .done a⟩ => some a
  | ⟨_, .request _ _⟩ => none

theorem Proc.result_eq_some {p : Proc Ans P α} {a : α} : p.result = some a ↔ p.todo = .done a := by
  obtain ⟨own, todo⟩ := p
  cases todo <;> simp [Proc.result]

/-- The next request of a program, if it has one left. -/
def next (serve : (r : Req) → P × S → Ans r × P × S) : S × Proc Ans P α → S × Proc Ans P α
  | (s, ⟨own, .done a⟩) => (s, ⟨own, .done a⟩)
  | (s, ⟨own, .request r rest⟩) =>
    let x := serve r (own, s)
    (x.2.2, ⟨x.2.1, rest x.1⟩)

/-- The program by itself for so many steps. -/
def alone (serve : (r : Req) → P × S → Ans r × P × S) (n : ℕ) (c : S × Proc Ans P α) :
    S × Proc Ans P α :=
  (next serve)^[n] c

section interleaving

variable [DecidableEq ι] (serve : ι → (r : Req) → P × S → Ans r × P × S)

/-- The program `i` makes its next request. -/
def move (c : S × (ι → Proc Ans P α)) (i : ι) : S × (ι → Proc Ans P α) :=
  let x := next (serve i) (c.1, c.2 i)
  (x.1, Function.update c.2 i x.2)

/-- The moves of a schedule. -/
def play (c : S × (ι → Proc Ans P α)) (schedule : List ι) : S × (ι → Proc Ans P α) :=
  schedule.foldl (move serve) c

end interleaving

section places

variable (get : S → (l : L) → V l) (K : Set L)

/-- Two stores hold the same in the places `K`. -/
def AgreeOn (s s' : S) : Prop := ∀ l ∈ K, get s l = get s' l

/-- A request that changes nothing outside `K`, and does with the rest what `K` says. -/
structure Local (serve : (r : Req) → P × S → Ans r × P × S) (r : Req) : Prop where
  frame : ∀ own s, ∀ l ∉ K, get (serve r (own, s)).2.2 l = get s l
  answer : ∀ own s s', AgreeOn get K s s' → (serve r (own, s)).1 = (serve r (own, s')).1
  own : ∀ own s s', AgreeOn get K s s' → (serve r (own, s)).2.1 = (serve r (own, s')).2.1
  store : ∀ own s s', AgreeOn get K s s' →
    AgreeOn get K (serve r (own, s)).2.2 (serve r (own, s')).2.2

variable {get K} {s s' s'' : S}

theorem AgreeOn.refl (s : S) : AgreeOn get K s s := fun _ _ => rfl

theorem AgreeOn.symm (h : AgreeOn get K s s') : AgreeOn get K s' s := fun l hl => (h l hl).symm

theorem AgreeOn.trans (h : AgreeOn get K s s') (h' : AgreeOn get K s' s'') :
    AgreeOn get K s s'' := fun l hl => (h l hl).trans (h' l hl)

/-- The same write to both stores keeps what they agree on. -/
theorem AgreeOn.update [DecidableEq L] {l : L} {x : V l} {next next' : S} (h : AgreeOn get K s s')
    (hnext : get next = Function.update (get s) l x)
    (hnext' : get next' = Function.update (get s') l x) : AgreeOn get K next next' := by
  intro l' hl'
  rw [hnext, hnext']
  by_cases hsame : l' = l
  · subst hsame
    simp
  · rw [Function.update_of_ne hsame, Function.update_of_ne hsame]
    exact h l' hl'

theorem frame_of_update [DecidableEq L] {l : L} {x : V l} {next : S} (hl : l ∈ K)
    (hnext : get next = Function.update (get s) l x) : ∀ l' ∉ K, get next l' = get s l' := by
  intro l' hl'
  rw [hnext]
  have hne : l' ≠ l := by
    rintro rfl
    exact hl' hl
  exact Function.update_of_ne hne ..

variable {serve : (r : Req) → P × S → Ans r × P × S}

/-- A request that only reads is local to the places its answer comes from. -/
theorem Local.of_reads {r : Req} (hstays : ∀ own s, (serve r (own, s)).2 = (own, s))
    (hans : ∀ own s s', AgreeOn get K s s' → (serve r (own, s)).1 = (serve r (own, s')).1) :
    Local get K serve r where
  frame own s l _ := by rw [hstays]
  answer := hans
  own own s s' _ := by rw [hstays, hstays]
  store own s s' h := by
    rw [hstays, hstays]
    exact h

/-- A request that writes one place is local to it, if nothing that is in the store goes into
what it writes. -/
theorem Local.of_writes [DecidableEq L] {r : Req} {l : L} {x : V l} (hl : l ∈ K)
    (hans : ∀ own s s', (serve r (own, s)).1 = (serve r (own, s')).1)
    (hown : ∀ own s, (serve r (own, s)).2.1 = own)
    (hwrites : ∀ own s, get (serve r (own, s)).2.2 = Function.update (get s) l x) :
    Local get K serve r where
  frame own s := frame_of_update hl (hwrites own s)
  answer own s s' _ := hans own s s'
  own own s s' _ := by rw [hown, hown]
  store own s s' h := h.update (hwrites own s) (hwrites own s')

/-- A step leaves what is outside the places of the program. -/
theorem next_frame {p : Proc Ans P α} (h : p.todo.Uses (Local get K serve)) :
    ∀ l ∉ K, get (next serve (s, p)).1 l = get s l := by
  obtain ⟨own, todo⟩ := p
  cases todo with
  | done a => exact fun _ _ => rfl
  | request r rest => exact h.1.frame own s

theorem next_uses {p : Proc Ans P α} {allowed : Req → Prop} (h : p.todo.Uses allowed) :
    (next serve (s, p)).2.todo.Uses allowed := by
  obtain ⟨own, todo⟩ := p
  cases todo with
  | done a => exact h
  | request r rest => exact h.2 _

/-- A step on stores that agree there leads to the same program and to stores that agree. -/
theorem next_agree {p : Proc Ans P α} (h : p.todo.Uses (Local get K serve))
    (hagree : AgreeOn get K s s') :
    (next serve (s, p)).2 = (next serve (s', p)).2 ∧
      AgreeOn get K (next serve (s, p)).1 (next serve (s', p)).1 := by
  obtain ⟨own, todo⟩ := p
  cases todo with
  | done a => exact ⟨rfl, hagree⟩
  | request r rest =>
    refine ⟨?_, h.1.store own s s' hagree⟩
    simp only [next]
    rw [h.1.answer own s s' hagree, h.1.own own s s' hagree]

/-- A program that has come to its end by itself is its run. -/
theorem run_of_alone (n : ℕ) {p : Proc Ans P α} {a : α}
    (hdone : (alone serve n (s, p)).2.todo = .done a) :
    p.todo.run serve (p.own, s) =
      (a, (alone serve n (s, p)).2.own, (alone serve n (s, p)).1) := by
  induction n generalizing s p with
  | zero =>
    obtain ⟨own, todo⟩ := p
    obtain rfl : todo = .done a := hdone
    rfl
  | succ n ih =>
    rw [alone, Function.iterate_succ_apply] at hdone ⊢
    have hrest := ih hdone
    obtain ⟨own, todo⟩ := p
    cases todo with
    | done b => exact hrest
    | request r rest => exact hrest

/-- A whole run leaves what is outside the places of the program. -/
theorem run_frame {p : Program Ans α} (h : p.Uses (Local get K serve)) (own : P) (s : S) :
    ∀ l ∉ K, get (p.run serve (own, s)).2.2 l = get s l := by
  induction p generalizing own s with
  | done a => exact fun _ _ => rfl
  | request r rest ih =>
    intro l hl
    have hrest := ih _ (h.2 (serve r (own, s)).1) (serve r (own, s)).2.1 (serve r (own, s)).2.2 l hl
    exact hrest.trans (h.1.frame own s l hl)

end places

section disjoint

variable [DecidableEq ι] {serve : ι → (r : Req) → P × S → Ans r × P × S}
  {get : S → (l : L) → V l} {K : ι → Set L}

variable (serve) in
theorem move_uses {allowed : ι → Req → Prop} {c : S × (ι → Proc Ans P α)}
    (h : ∀ i, (c.2 i).todo.Uses (allowed i)) (j : ι) :
    ∀ i, ((move serve c j).2 i).todo.Uses (allowed i) := by
  intro i
  by_cases hi : i = j
  · subst hi
    simpa [move] using next_uses (h i)
  · simpa [move, Function.update_of_ne hi] using h i

/-- Beside other programs a program does what it does alone, its places being its own. -/
theorem play_alone (hdisjoint : Pairwise (fun i j => Disjoint (K i) (K j)))
    (schedule : List ι) (s : S) (procs : ι → Proc Ans P α)
    (huses : ∀ i, (procs i).todo.Uses (Local get (K i) (serve i))) (i : ι) (s' : S)
    (hagree : AgreeOn get (K i) s s') :
    (play serve (s, procs) schedule).2 i =
        (alone (serve i) (schedule.count i) (s', procs i)).2 ∧
      AgreeOn get (K i) (play serve (s, procs) schedule).1
        (alone (serve i) (schedule.count i) (s', procs i)).1 := by
  induction schedule generalizing s procs s' with
  | nil => exact ⟨rfl, hagree⟩
  | cons j rest ih =>
    have hmoved := move_uses serve (c := (s, procs)) huses j
    by_cases hij : i = j
    · subst hij
      -- a move of this program is the move it makes alone
      obtain ⟨hproc, hstore⟩ := next_agree (huses i) hagree
      have hrest := ih (move serve (s, procs) i).1 (move serve (s, procs) i).2 hmoved
        (next (serve i) (s', procs i)).1 hstore
      rw [List.count_cons_self, alone, Function.iterate_succ_apply]
      have hsame : (move serve (s, procs) i).2 i = (next (serve i) (s', procs i)).2 := by
        simpa [move] using hproc
      rw [hsame] at hrest
      exact hrest
    · -- the other program keeps out of the places of this one
      have hstore : AgreeOn get (K i) (move serve (s, procs) j).1 s' := by
        intro l hl
        have hout : l ∉ K j := fun hj => (hdisjoint hij).le_bot ⟨hl, hj⟩
        exact (next_frame (huses j) l hout).trans (hagree l hl)
      have hrest := ih (move serve (s, procs) j).1 (move serve (s, procs) j).2 hmoved s' hstore
      rw [List.count_cons_of_ne (Ne.symm hij)]
      have hsame : (move serve (s, procs) j).2 i = procs i := Function.update_of_ne hij ..
      rw [hsame] at hrest
      exact hrest

/-- What no program has for its own stays as it is. -/
theorem play_frame (schedule : List ι) (s : S) (procs : ι → Proc Ans P α)
    (huses : ∀ i, (procs i).todo.Uses (Local get (K i) (serve i))) (l : L) (hl : ∀ i, l ∉ K i) :
    get (play serve (s, procs) schedule).1 l = get s l := by
  induction schedule generalizing s procs with
  | nil => rfl
  | cons j rest ih =>
    have hrest := ih (move serve (s, procs) j).1 (move serve (s, procs) j).2
      (move_uses serve (c := (s, procs)) huses j)
    exact hrest.trans (next_frame (huses j) l (hl j))

/-- A program that has come to its end beside others: its result is that of a run by itself
on any store that agrees in its places, and so is what it leaves there. -/
theorem run_of_play (hdisjoint : Pairwise (fun i j => Disjoint (K i) (K j)))
    {schedule : List ι} {s : S} {procs : ι → Proc Ans P α}
    (huses : ∀ i, (procs i).todo.Uses (Local get (K i) (serve i))) {i : ι} {a : α}
    (hdone : ((play serve (s, procs) schedule).2 i).todo = .done a) {s' : S}
    (hagree : AgreeOn get (K i) s s') :
    ((procs i).todo.run (serve i) ((procs i).own, s')).1 = a ∧
      ((procs i).todo.run (serve i) ((procs i).own, s')).2.1 =
        ((play serve (s, procs) schedule).2 i).own ∧
      AgreeOn get (K i) (play serve (s, procs) schedule).1
        ((procs i).todo.run (serve i) ((procs i).own, s')).2.2 := by
  obtain ⟨hproc, hstore⟩ := play_alone hdisjoint schedule s procs huses i s' hagree
  rw [hproc] at hdone
  rw [run_of_alone _ hdone, hproc]
  exact ⟨rfl, rfl, hstore⟩

end disjoint

section reporting

variable [DecidableEq ι] (serve : ι → (r : Req) → P × S → Ans r × P × S)

/-- The next request of the program that moves is admitted in the store it is made in. -/
def Admits (allowed : S → Req → Prop) (c : S × (ι → Proc Ans P α)) (i : ι) : Prop :=
  ∀ r ∈ (c.2 i).todo.nextRequest, allowed c.1 r

instance (allowed : S → Req → Prop) [∀ s, DecidablePred (allowed s)]
    (c : S × (ι → Proc Ans P α)) (i : ι) : Decidable (Admits allowed c i) :=
  inferInstanceAs (Decidable (∀ r ∈ (c.2 i).todo.nextRequest, allowed c.1 r))

variable {serve} (allowed : S → Req → Prop) {mark : Req → Prop} {post : α → Prop}
variable {schedule : List ι} {c : S × (ι → Proc Ans P α)}

/-- What every admitted request keeps of the store. -/
theorem play_invariant (I : S → Prop)
    (hkeep : ∀ i own s r, allowed s r → I s → I (serve i r (own, s)).2.2)
    (hguard : Runs.Guarded (move serve) (Admits allowed) c schedule) (hc : I c.1) :
    I (play serve c schedule).1 := by
  refine Runs.guarded_run_invariant (move serve) (fun c => I c.1) (Admits allowed) ?_ c schedule
    hc hguard
  rintro ⟨s, procs⟩ j hs hadmits
  simp only [move, Admits] at hs hadmits ⊢
  cases hproc : procs j with
  | mk own todo =>
  rw [hproc] at hadmits
  cases todo with
  | done a => exact hs
  | request r rest => exact hkeep j own s r (hadmits r rfl) hs

/-- Programs that report, side by side: either a marked request has left its trace in the store,
or none was made and every result meets `post`. -/
theorem play_reports (I told : S → Prop)
    (hkeep : ∀ i own s r, allowed s r → I s → I (serve i r (own, s)).2.2)
    (htold : ∀ i own s r, allowed s r → told s → told (serve i r (own, s)).2.2)
    (hmark : ∀ i own s r, allowed s r → I s → mark r → told (serve i r (own, s)).2.2)
    (hguard : Runs.Guarded (move serve) (Admits allowed) c schedule) (hI : I c.1)
    (hc : ∀ i, (c.2 i).todo.Reports mark post) :
    told (play serve c schedule).1 ∨
      ∀ i, ((play serve c schedule).2 i).todo.Reports mark post := by
  suffices h : I (play serve c schedule).1 ∧ (told (play serve c schedule).1 ∨
      ∀ i, ((play serve c schedule).2 i).todo.Reports mark post) from h.2
  refine Runs.guarded_run_invariant (move serve)
    (fun c => I c.1 ∧ (told c.1 ∨ ∀ i, (c.2 i).todo.Reports mark post)) (Admits allowed) ?_ c
    schedule ⟨hI, Or.inr hc⟩ hguard
  rintro ⟨s, procs⟩ j ⟨hIs, hs⟩ hadmits
  -- only the program that moves can change
  have hothers : ∀ p : Proc Ans P α, p.todo.Reports mark post →
      (∀ i, (procs i).todo.Reports mark post) →
      ∀ i, (Function.update procs j p i).todo.Reports mark post := by
    intro p hp hprocs i
    by_cases hij : i = j
    · subst hij
      simpa using hp
    · simpa [Function.update_of_ne hij] using hprocs i
  simp only [move, Admits] at hIs hs hadmits ⊢
  cases hproc : procs j with
  | mk own todo =>
  rw [hproc] at hadmits
  cases todo with
  | done a =>
    refine ⟨hIs, hs.imp id (fun hprocs => hothers ⟨own, .done a⟩ ?_ hprocs)⟩
    simpa [hproc] using hprocs j
  | request r rest =>
    have hallowed : allowed s r := hadmits r rfl
    refine ⟨hkeep j own s r hallowed hIs, ?_⟩
    rcases hs with hs | hprocs
    · exact Or.inl (htold j own s r hallowed hs)
    · have hown : mark r ∨ ∀ x, (rest x).Reports mark post := by
        simpa [hproc, Program.Reports] using hprocs j
      rcases hown with hr | hrest
      · exact Or.inl (hmark j own s r hallowed hIs hr)
      · exact Or.inr (hothers ⟨_, rest (serve j r (own, s)).1⟩ (hrest _) hprocs)

end reporting

section notes

/-- The server that also notes every request with its answer, newest first. -/
def noted (serve : (r : Req) → P × S → Ans r × P × S) (r : Req) (x : (P × Log Ans) × S) :
    Ans r × (P × Log Ans) × S :=
  let y := serve r (x.1.1, x.2)
  (y.1, (y.2.1, ⟨r, y.1⟩ :: x.1.2), y.2.2)

variable {serve : (r : Req) → P × S → Ans r × P × S} {get : S → (l : L) → V l} {K : Set L}

theorem Local.noted {r : Req} (h : Local get K serve r) : Local get K (noted serve) r where
  frame own s := h.frame own.1 s
  answer own s s' hagree := h.answer own.1 s s' hagree
  own own s s' hagree := by
    simp only [Interleavings.noted]
    rw [h.answer own.1 s s' hagree, h.own own.1 s s' hagree]
  store own s s' hagree := h.store own.1 s s' hagree

/-- The notes decide nothing. -/
theorem run_noted (p : Program Ans α) (own : P) (notes : Log Ans) (s : S) :
    p.run serve (own, s) =
      ((p.run (Interleavings.noted serve) ((own, notes), s)).1,
        (p.run (Interleavings.noted serve) ((own, notes), s)).2.1.1,
        (p.run (Interleavings.noted serve) ((own, notes), s)).2.2) :=
  Program.run_map ((own, notes), s) (fun x : (P × Log Ans) × S => (x.1.1, x.2))
    (fun _ _ => rfl) p

end notes

end GwsMigrator.Interleavings
