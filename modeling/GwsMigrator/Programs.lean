import GwsMigrator.Dialogue

/-! Programs that make requests one after the other, each chosen from the answers so far, run
against any server with a state. -/
namespace GwsMigrator

/-- A program stops with a value, or makes a request and goes on with the answer. -/
inductive Program {Req : Type} (Ans : Req → Type) (α : Type) where
  | done (a : α)
  | request (r : Req) (next : Ans r → Program Ans α)

namespace Program

variable {Req : Type} {Ans : Req → Type} {α β σ τ : Type}

def bind : Program Ans α → (α → Program Ans β) → Program Ans β
  | done a, f => f a
  | request r next, f => request r (fun x => (next x).bind f)

instance : Monad (Program Ans) where
  pure := done
  bind := bind

def perform (r : Req) : Program Ans (Ans r) := request r done

@[simp] theorem perform_bind (r : Req) (f : Ans r → Program Ans β) :
    perform r >>= f = request r f := rfl

/-- What a program returns, and the state it leaves, when `serve` answers its requests. -/
def run (serve : (r : Req) → σ → Ans r × σ) : Program Ans α → σ → α × σ
  | done a, s => (a, s)
  | request r next, s => (next (serve r s).1).run serve (serve r s).2

section running

variable (serve : (r : Req) → σ → Ans r × σ) (s : σ)

@[simp] theorem run_pure (a : α) : (pure a : Program Ans α).run serve s = (a, s) := rfl

@[simp] theorem run_request (r : Req) (next : Ans r → Program Ans α) :
    (request r next).run serve s = (next (serve r s).1).run serve (serve r s).2 := rfl

@[simp] theorem run_perform (r : Req) : (perform r).run serve s = serve r s := rfl

@[simp] theorem run_bind (p : Program Ans α) (f : α → Program Ans β) :
    (p >>= f).run serve s = (f (p.run serve s).1).run serve (p.run serve s).2 := by
  induction p generalizing s with
  | done a => rfl
  | request r next ih => exact ih _ _

variable {serve}

/-- A loop whose rounds do what `step` does, seen through `vars` and `world`. -/
theorem run_foldlM {γ δ : Type} {round : β → γ → Program Ans β} {step : δ → γ → δ}
    (vars : δ → β) (world : δ → σ) (l : List γ)
    (hround : ∀ d, ∀ c ∈ l, (round (vars d) c).run serve (world d) =
      (vars (step d c), world (step d c))) (d : δ) :
    (l.foldlM round (vars d)).run serve (world d) =
      (vars (l.foldl step d), world (l.foldl step d)) := by
  induction l generalizing d with
  | nil => rfl
  | cons c l ih =>
    rw [List.foldlM_cons, run_bind, hround d c List.mem_cons_self]
    exact ih (fun d c hc => hround d c (List.mem_cons_of_mem _ hc)) (step d c)

/-- Two servers that answer alike, their states related by `f`, run a program alike. -/
theorem run_map {serve' : (r : Req) → τ → Ans r × τ} (f : σ → τ)
    (h : ∀ r s, serve' r (f s) = ((serve r s).1, f (serve r s).2)) (p : Program Ans α) :
    p.run serve' (f s) = ((p.run serve s).1, f (p.run serve s).2) := by
  induction p generalizing s with
  | done a => rfl
  | request r next ih =>
    simp only [run, h]
    exact ih _ _

/-- The requests of a run with their answers, in order. -/
def trace (serve : (r : Req) → σ → Ans r × σ) : Program Ans α → σ → List (Dialogue.Event Ans)
  | done _, _ => []
  | request r next, s =>
    ⟨r, (serve r s).1⟩ :: (next (serve r s).1).trace serve (serve r s).2

@[simp] theorem trace_pure (serve : (r : Req) → σ → Ans r × σ) (a : α) :
    (pure a : Program Ans α).trace serve s = [] := rfl

@[simp] theorem trace_request (serve : (r : Req) → σ → Ans r × σ) (r : Req)
    (next : Ans r → Program Ans α) :
    (request r next).trace serve s =
      ⟨r, (serve r s).1⟩ :: (next (serve r s).1).trace serve (serve r s).2 := rfl

@[simp] theorem trace_bind (serve : (r : Req) → σ → Ans r × σ) (p : Program Ans α)
    (f : α → Program Ans β) :
    (p >>= f).trace serve s =
      p.trace serve s ++ (f (p.run serve s).1).trace serve (p.run serve s).2 := by
  induction p generalizing s with
  | done a => rfl
  | request r next ih => exact congrArg (⟨r, (serve r s).1⟩ :: ·) (ih _ _)

end running

section uses

/-- Every request that the program can make, whatever the answers, is allowed. -/
def Uses (allowed : Req → Prop) : Program Ans α → Prop
  | done _ => True
  | request r next => allowed r ∧ ∀ x, (next x).Uses allowed

variable {allowed : Req → Prop}

@[simp] theorem uses_pure (a : α) : (pure a : Program Ans α).Uses allowed := trivial

theorem uses_perform {r : Req} (h : allowed r) :
    (perform r : Program Ans (Ans r)).Uses allowed := ⟨h, fun _ => trivial⟩

theorem Uses.mono {allowed' : Req → Prop} {p : Program Ans α} (hp : p.Uses allowed)
    (h : ∀ r, allowed r → allowed' r) : p.Uses allowed' := by
  induction p with
  | done a => trivial
  | request r next ih => exact ⟨h r hp.1, fun x => ih x (hp.2 x)⟩

theorem uses_bind {p : Program Ans α} {f : α → Program Ans β} (hp : p.Uses allowed)
    (hf : ∀ a, (f a).Uses allowed) : (p >>= f).Uses allowed := by
  induction p with
  | done a => exact hf a
  | request r next ih => exact ⟨hp.1, fun x => ih x (hp.2 x)⟩

theorem uses_foldlM {γ : Type} {round : β → γ → Program Ans β} (l : List γ)
    (hround : ∀ b, ∀ c ∈ l, (round b c).Uses allowed) (b : β) :
    (l.foldlM round b).Uses allowed := by
  induction l generalizing b with
  | nil => exact uses_pure b
  | cons c l ih =>
    rw [List.foldlM_cons]
    exact uses_bind (hround b c List.mem_cons_self)
      (fun b' => ih (fun b c hc => hround b c (List.mem_cons_of_mem _ hc)) b')

end uses

/-- The request that a program makes first. -/
def nextRequest : Program Ans α → Option Req
  | done _ => none
  | request r _ => some r

section reports

/-- On every way through the program a marked request is made, or the result meets `post`. -/
def Reports (mark : Req → Prop) (post : α → Prop) : Program Ans α → Prop
  | done a => post a
  | request r next => mark r ∨ ∀ x, (next x).Reports mark post

variable {mark : Req → Prop} {post : α → Prop} {post' : β → Prop}

theorem reports_pure {a : α} (h : post a) : (pure a : Program Ans α).Reports mark post := h

theorem reports_marked {r : Req} (h : mark r) (next : Ans r → Program Ans α) :
    (perform r >>= next).Reports mark post := Or.inl h

theorem reports_request {r : Req} {next : Ans r → Program Ans α}
    (h : ∀ x, (next x).Reports mark post) : (perform r >>= next).Reports mark post := Or.inr h

theorem reports_bind {p : Program Ans α} {f : α → Program Ans β} (hp : p.Reports mark post)
    (hf : ∀ a, post a → (f a).Reports mark post') : (p >>= f).Reports mark post' := by
  induction p with
  | done a => exact hf a hp
  | request r next ih => exact hp.imp id (fun hnext x => ih x (hnext x))

/-- Nothing is asked of the result of the first part. -/
theorem reports_bind_any (p : Program Ans α) {f : α → Program Ans β}
    (hf : ∀ a, (f a).Reports mark post') : (p >>= f).Reports mark post' := by
  have hp : p.Reports mark (fun _ => True) := by
    induction p with
    | done a => trivial
    | request r next ih => exact Or.inr ih
  exact reports_bind hp (fun a _ => hf a)

theorem reports_foldlM {γ : Type} {round : β → γ → Program Ans β} (l : List γ)
    (hround : ∀ b c, post' b → (round b c).Reports mark post') {b : β} (hb : post' b) :
    (l.foldlM round b).Reports mark post' := by
  induction l generalizing b with
  | nil => exact reports_pure hb
  | cons c l ih =>
    rw [List.foldlM_cons]
    exact reports_bind (hround b c hb) (fun b' hb' => ih hb')

end reports

end Program

end GwsMigrator
