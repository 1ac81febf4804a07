import Mathlib.Data.List.Basic

/-! Collections that a server gives out page by page, each page with the link of the next one. -/
namespace GwsMigrator.PageChains

variable {σ ℓ π ε : Type}

/-- The pages from a link on, the exception that ended them if one did, and the server then. No
link means that there is no further page. -/
inductive Chain (serve : ℓ → σ → Except ε π × σ) (next : π → Option ℓ) :
    σ → Option ℓ → List π → Option ε → σ → Prop
  | last (s : σ) : Chain serve next s none [] none s
  | failed {s s' : σ} {link : ℓ} {e : ε} (answer : serve link s = (.error e, s')) :
      Chain serve next s (some link) [] (some e) s'
  | page {s s' t : σ} {link : ℓ} {p : π} {ps : List π} {e : Option ε}
      (answer : serve link s = (.ok p, s')) (rest : Chain serve next s' (next p) ps e t) :
      Chain serve next s (some link) (p :: ps) e t

variable {serve : ℓ → σ → Except ε π × σ} {next : π → Option ℓ}

/-- The answers of the server decide the pages. -/
theorem Chain.unique {s t t' : σ} {link : Option ℓ} {ps ps' : List π} {e e' : Option ε}
    (h : Chain serve next s link ps e t) (h' : Chain serve next s link ps' e' t') :
    ps = ps' ∧ e = e' ∧ t = t' := by
  induction h generalizing ps' e' t' with
  | last s =>
    cases h'
    exact ⟨rfl, rfl, rfl⟩
  | failed answer =>
    cases h' with
    | failed answer' =>
      rw [answer] at answer'
      cases answer'
      exact ⟨rfl, rfl, rfl⟩
    | page answer' rest' =>
      rw [answer] at answer'
      cases answer'
  | page answer rest ih =>
    cases h' with
    | failed answer' =>
      rw [answer] at answer'
      cases answer'
    | page answer' rest' =>
      rw [answer] at answer'
      cases answer'
      obtain ⟨rfl, rfl, rfl⟩ := ih rest'
      exact ⟨rfl, rfl, rfl⟩

end GwsMigrator.PageChains
