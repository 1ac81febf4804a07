import GwsMigrator.PagedReads

/-! Collections that are shown page by page while nothing in them changes, and trees of such
collections, where every item has a collection of its own below it. -/
namespace GwsMigrator.PagedReads
open Program

variable {Req : Type} {Ans : Req → Type} {ι β γ τ ε σ κ : Type}

/-- From a token on the pages show these items, in every state in which `I` holds. -/
inductive Shows (serve : (r : Req) → σ → Ans r × σ)
    (page : Option τ → Program Ans (Except ε (List ι × Option τ))) (I : σ → Prop) :
    Option τ → List ι → Prop
  | last {token : Option τ} {xs : List ι}
      (answer : ∀ s, I s → ((page token).run serve s).1 = .ok (xs, none)) :
      Shows serve page I token xs
  | page {token : Option τ} {next : τ} {xs rest : List ι}
      (answer : ∀ s, I s → ((page token).run serve s).1 = .ok (xs, some next))
      (later : Shows serve page I (some next) rest) : Shows serve page I token (xs ++ rest)

variable {serve : (r : Req) → σ → Ans r × σ} {I : σ → Prop}

/-- The loop over items, when the body yields the same for an item in every state. -/
theorem forItems_eq {body : ι → Program Ans (Yields β ε)} (hkeeps : ∀ r s, I s → I (serve r s).2)
    (item : γ → ι) (f : γ → List β) {ts : List γ}
    (hbody : ∀ t ∈ ts, ∀ s, I s → ((body (item t)).run serve s).1 = (f t, none)) {s : σ}
    (hs : I s) : ((forItems body (ts.map item)).run serve s).1 = (ts.flatMap f, none) := by
  induction ts generalizing s with
  | nil => rfl
  | cons t ts ih =>
    have hfirst := hbody t List.mem_cons_self s hs
    have hkept := run_keeps I hkeeps (body (item t)) hs
    rw [List.map_cons, forItems, run_bind, hfirst]
    simp only [run_bind]
    rw [ih (fun t ht => hbody t (List.mem_cons_of_mem _ ht)) hkept, List.flatMap_cons]
    rfl

variable {page : Option τ → Program Ans (Except ε (List ι × Option τ))}

variable (β) in
/-- A reader with fuel for every page yields what its body does for the items, in their order. -/
theorem Shows.readPages {token : Option τ} {xs : List ι} (h : Shows serve page I token xs)
    (hkeeps : ∀ r s, I s → I (serve r s).2) (item : γ → ι) {ts : List γ}
    (hts : ts.map item = xs) : ∃ n, ∀ (body : ι → Program Ans (Yields β ε)) (f : γ → List β),
      (∀ t ∈ ts, ∀ s, I s → ((body (item t)).run serve s).1 = (f t, none)) →
      ∀ fuel, n ≤ fuel → ∀ s, I s →
        ((PagedReads.readPages page body fuel token).run serve s).1 =
          some (ts.flatMap f, none) := by
  induction h generalizing ts with
  | @last token xs answer =>
    subst hts
    refine ⟨1, fun body f hbody fuel hfuel s hs => ?_⟩
    obtain ⟨fuel, rfl⟩ := Nat.exists_eq_add_of_le' hfuel
    have hpage := answer s hs
    have hkept := run_keeps I hkeeps (page token) hs
    rw [PagedReads.readPages, run_bind, hpage]
    simp only [run_bind]
    rw [forItems_eq hkeeps item f hbody hkept]
    rfl
  | @page token next xs rest answer later ih =>
    obtain ⟨ts₁, ts₂, rfl, rfl, rfl⟩ := List.map_eq_append_iff.mp hts
    obtain ⟨n, hn⟩ := ih rfl
    refine ⟨n + 1, fun body f hbody fuel hfuel s hs => ?_⟩
    obtain ⟨fuel, rfl⟩ := Nat.exists_eq_add_of_le' (Nat.le_of_add_left_le hfuel)
    have hpage := answer s hs
    have hkept := run_keeps I hkeeps (page token) hs
    have hitems := forItems_eq hkeeps item f
      (fun t ht => hbody t (List.mem_append_left _ ht)) hkept
    have hkept' := run_keeps I hkeeps (forItems body (ts₁.map item)) hkept
    rw [PagedReads.readPages, run_bind, hpage]
    simp only [run_bind]
    rw [hitems]
    simp only [run_bind]
    rw [hn body f (fun t ht => hbody t (List.mem_append_right _ ht)) fuel (by omega) _ hkept',
      List.flatMap_append]
    rfl

/-- An item with what is below it. -/
inductive Rose (ι : Type) where
  | node (item : ι) (children : List (Rose ι))

def Rose.item : Rose ι → ι
  | .node item _ => item

def Rose.children : Rose ι → List (Rose ι)
  | .node _ children => children

section
variable (down : κ → ι → κ) (emit : κ → ι → β)

mutual

/-- What a walk through the trees below `k` gives, each item before what is below it. -/
def forest (k : κ) : List (Rose ι) → List β
  | [] => []
  | t :: ts => tree k t ++ forest k ts

def tree (k : κ) : Rose ι → List β
  | .node item children => emit k item :: forest (down k item) children

end

theorem forest_eq_flatMap (k : κ) (ts : List (Rose ι)) :
    forest down emit k ts = ts.flatMap (tree down emit k) := by
  induction ts with
  | nil => rfl
  | cons t ts ih => rw [forest, List.flatMap_cons, ih]

variable (page : κ → Option τ → Program Ans (Except ε (List ι × Option τ)))

/-- The walk: every item of a page is followed by a walk through the collection below it. The
exception is none when the fuel is used up. -/
def walk : ℕ → κ → Program Ans (Yields β (Option ε))
  | 0, _ => pure ([], some none)
  | fuel + 1, k => do
    let answer ← readPages
      (fun token => do
        let answer ← page k token
        pure (answer.mapError some))
      (fun x => do
        let (ys, e) ← walk fuel (down k x)
        pure (emit k x :: ys, e)) fuel none
    pure (answer.getD ([], some none))

/-- The collection of `k` shows the roots of the trees, and so on below each of them. -/
inductive ShowsForest (serve : (r : Req) → σ → Ans r × σ) (I : σ → Prop) :
    κ → List (Rose ι) → Prop
  | mk {k : κ} {ts : List (Rose ι)} (listed : Shows serve (page k) I none (ts.map Rose.item))
      (below : ∀ t ∈ ts, ShowsForest serve I (down k t.item) t.children) : ShowsForest serve I k ts

variable {down emit page}

theorem Shows.mapError {page : Option τ → Program Ans (Except ε (List ι × Option τ))}
    {ε' : Type} (g : ε → ε') {token : Option τ} {xs : List ι}
    (h : Shows serve page I token xs) :
    Shows serve (fun token => do
      let answer ← page token
      pure (answer.mapError g)) I token xs := by
  induction h with
  | last answer =>
    refine .last (fun s hs => ?_)
    rw [run_bind, answer s hs]
    rfl
  | page answer later ih =>
    refine .page (fun s hs => ?_) ih
    rw [run_bind, answer s hs]
    rfl

theorem exists_bound {P : γ → ℕ → Prop} (ts : List γ) (h : ∀ t ∈ ts, ∃ n, ∀ m, n ≤ m → P t m) :
    ∃ n, ∀ t ∈ ts, ∀ m, n ≤ m → P t m := by
  induction ts with
  | nil => exact ⟨0, by simp⟩
  | cons t ts ih =>
    obtain ⟨n, hn⟩ := h t List.mem_cons_self
    obtain ⟨n', hn'⟩ := ih (fun t ht => h t (List.mem_cons_of_mem _ ht))
    refine ⟨max n n', fun t' ht' m hm => ?_⟩
    rcases List.mem_cons.mp ht' with rfl | ht'
    · exact hn m (by omega)
    · exact hn' t' ht' m (by omega)

variable (emit) in
/-- A walk with enough fuel gives the trees, whatever the pages they are shown on. -/
theorem ShowsForest.walk {k : κ} {ts : List (Rose ι)}
    (h : ShowsForest down page serve I k ts) (hkeeps : ∀ r s, I s → I (serve r s).2) :
    ∃ n, ∀ fuel, n ≤ fuel → ∀ s, I s →
      ((PagedReads.walk down emit page fuel k).run serve s).1 =
        (forest down emit k ts, none) := by
  induction h with
  | @mk k ts listed below ih =>
    obtain ⟨pages, hpages⟩ := (listed.mapError some).readPages β hkeeps Rose.item rfl
    obtain ⟨n, hn⟩ := exists_bound ts ih
    refine ⟨max pages n + 1, fun fuel hfuel s hs => ?_⟩
    obtain ⟨fuel, rfl⟩ := Nat.exists_eq_add_of_le' (Nat.le_of_add_left_le hfuel)
    rw [PagedReads.walk, run_bind,
      hpages _ (tree down emit k) (fun t ht s hs => ?_) fuel (by omega) s hs]
    · rw [forest_eq_flatMap]
      rfl
    · have hbelow := hn t ht fuel (by omega) s hs
      rw [run_bind, hbelow]
      cases t
      rfl

end

end GwsMigrator.PagedReads
