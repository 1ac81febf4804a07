import GwsMigrator.Programs

/-! Generators that read a collection page by page and yield something for each of its items, from
a server whose collection may change between any two requests. -/
namespace GwsMigrator.PagedReads
open Program

variable {Req : Type} {Ans : Req → Type} {ι β τ ε σ α : Type}

/-- What a generator has yielded when it stops, and the exception that stopped it. -/
abbrev Yields (β ε : Type) := List β × Option ε

/-- The loop over the items of a page. -/
def forItems (body : ι → Program Ans (Yields β ε)) : List ι → Program Ans (Yields β ε)
  | [] => pure ([], none)
  | x :: xs => do
    match ← body x with
    | (ys, some e) => pure (ys, some e)
    | (ys, none) => do
      let (zs, e) ← forItems body xs
      pure (ys ++ zs, e)

/-- The loop over the pages from a token on: nothing comes out when the fuel is used up. -/
def readPages (page : Option τ → Program Ans (Except ε (List ι × Option τ)))
    (body : ι → Program Ans (Yields β ε)) : ℕ → Option τ → Program Ans (Option (Yields β ε))
  | 0, _ => pure none
  | fuel + 1, token => do
    match ← page token with
    | .error e => pure (some ([], some e))
    | .ok (xs, next) => do
      match ← forItems body xs with
      | (ys, some e) => pure (some (ys, some e))
      | (ys, none) =>
        match next with
        | none => pure (some (ys, none))
        | some _ => do
          match ← readPages page body fuel next with
          | none => pure none
          | some (zs, e) => pure (some (ys ++ zs, e))

variable {serve : (r : Req) → σ → Ans r × σ}

/-- What every request keeps is kept by a program. -/
theorem run_keeps (I : σ → Prop) (hkeeps : ∀ r s, I s → I (serve r s).2) (p : Program Ans α)
    {s : σ} (hs : I s) : I (p.run serve s).2 := by
  induction p generalizing s with
  | done a => exact hs
  | request r next ih => exact ih _ (hkeeps r s hs)

/-- What a server owes a reader in one respect: `I` holds of its states, a page token that owes the
item goes on owing it whatever is asked in between, a page has the item or its next token owes it,
and an item that is handled has something good yielded for it. -/
structure Owing (serve : (r : Req) → σ → Ans r × σ)
    (page : Option τ → Program Ans (Except ε (List ι × Option τ)))
    (body : ι → Program Ans (Yields β ε)) (I : σ → Prop) (owes : σ → Option τ → Prop)
    (item : ι → Prop) (good : β → Prop) : Prop where
  keeps : ∀ r s, I s → I (serve r s).2
  waits : ∀ r s token, I s → owes s (some token) → owes (serve r s).2 (some token)
  pages : ∀ s token xs next, I s → owes s token →
    ((page token).run serve s).1 = .ok (xs, next) →
    (∃ x ∈ xs, item x) ∨ ∃ token', next = some token' ∧ owes ((page token).run serve s).2 next
  yields : ∀ s x, I s → item x → ((body x).run serve s).1.2 = none →
    ∃ y ∈ ((body x).run serve s).1.1, good y

variable {page : Option τ → Program Ans (Except ε (List ι × Option τ))}
  {body : ι → Program Ans (Yields β ε)} {I : σ → Prop} {owes : σ → Option τ → Prop}
  {item : ι → Prop} {good : β → Prop}

/-- A loop over items that comes to its end has handled each of them. -/
theorem Owing.forItems_yields (h : Owing serve page body I owes item good) {xs : List ι} {x : ι}
    (hx : x ∈ xs) (hitem : item x) {s : σ} (hs : I s)
    (hend : ((forItems body xs).run serve s).1.2 = none) :
    ∃ y ∈ ((forItems body xs).run serve s).1.1, good y := by
  induction xs generalizing s with
  | nil => exact absurd hx List.not_mem_nil
  | cons x' xs ih =>
    rw [forItems, run_bind] at hend ⊢
    have hkept := run_keeps I h.keeps (body x') hs
    rcases hrun : (body x').run serve s with ⟨⟨ys, e | _⟩, s'⟩
    · -- nothing was raised
      rw [hrun] at hend hkept
      simp only [run_bind] at hend ⊢
      rcases List.mem_cons.mp hx with rfl | hx
      · have hyields := h.yields s x hs hitem (by rw [hrun])
        rw [hrun] at hyields
        obtain ⟨y, hy, hgood⟩ := hyields
        exact ⟨y, List.mem_append_left _ hy, hgood⟩
      · obtain ⟨y, hy, hgood⟩ := ih hx hkept hend
        exact ⟨y, List.mem_append_right _ hy, hgood⟩
    · rw [hrun] at hend
      cases hend

/-- A reader that comes to its end by itself has yielded what it was owed. -/
theorem Owing.readPages_yields (h : Owing serve page body I owes item good) {fuel : ℕ}
    {token : Option τ} {s : σ} (hs : I s) (howes : owes s token) {ys : List β}
    (hend : ((readPages page body fuel token).run serve s).1 = some (ys, none)) :
    ∃ y ∈ ys, good y := by
  induction fuel generalizing token s ys with
  | zero => cases hend
  | succ fuel ih =>
    rw [readPages, run_bind] at hend
    have hkept := run_keeps I h.keeps (page token) hs
    rcases hpage : (page token).run serve s with ⟨e | ⟨xs, next⟩, s₁⟩
    · rw [hpage] at hend
      cases hend
    · have hfound := h.pages s token xs next hs howes (by rw [hpage])
      rw [hpage] at hend hkept hfound
      simp only [run_bind] at hend
      have hitems := fun (x : ι) (hx : x ∈ xs) (hitem : item x) => h.forItems_yields hx hitem hkept
      have hlater : ∀ token', owes s₁ (some token') →
          I ((forItems body xs).run serve s₁).2 ∧
            owes ((forItems body xs).run serve s₁).2 (some token') :=
        fun token' howes' => run_keeps (fun s => I s ∧ owes s (some token'))
          (fun r s h' => ⟨h.keeps r s h'.1, h.waits r s token' h'.1 h'.2⟩) _ ⟨hkept, howes'⟩
      rcases hfor : (forItems body xs).run serve s₁ with ⟨⟨zs, e | _⟩, s₂⟩
      · rw [hfor] at hend hitems hlater
        simp only at hend hitems hlater
        cases next with
        | none =>
          cases hend
          rcases hfound with ⟨x, hx, hitem⟩ | ⟨token', hnext, -⟩
          · exact hitems x hx hitem trivial
          · cases hnext
        | some token' =>
          simp only [run_bind] at hend
          rcases hrest : (readPages page body fuel (some token')).run serve s₂ with
            ⟨_ | ⟨ws, e⟩, s₃⟩
          · rw [hrest] at hend
            cases hend
          · rw [hrest] at hend
            cases hend
            rcases hfound with ⟨x, hx, hitem⟩ | ⟨token'', hnext, howes'⟩
            · obtain ⟨y, hy, hgood⟩ := hitems x hx hitem trivial
              exact ⟨y, List.mem_append_left _ hy, hgood⟩
            · obtain ⟨hkept₂, howes₂⟩ := hlater token' howes'
              obtain ⟨y, hy, hgood⟩ := ih hkept₂ howes₂ (by rw [hrest])
              exact ⟨y, List.mem_append_right _ hy, hgood⟩
      · rw [hfor] at hend
        cases hend

end GwsMigrator.PagedReads
