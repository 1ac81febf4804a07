import GwsMigrator.Programs
import GwsMigrator.Worklist

/-! The worklist with steps that are programs. -/
namespace GwsMigrator.Worklist
open Program

variable {Req : Type} {Ans : Req → Type} {α β σ τ κ : Type} [DecidableEq κ]
variable (step : Bool → β → α → Program Ans (Bool × β)) (key : α → κ) (parent : α → Option κ)

def runBatchM (defer : Bool) : β → List α → Program Ans (β × List α)
  | b, [] => pure (b, [])
  | b, a :: as => do
    let r ← step defer b a
    let rest ← runBatchM defer r.2 as
    pure (rest.1, if r.1 then a :: rest.2 else rest.2)

def runRoundM (b : β) (deferred : List α) : Program Ans (β × List α) := do
  let r ← runBatchM step true b deferred
  if r.2.length = deferred.length then
    let o := orphans key parent r.2
    let forced ← runBatchM step false r.1 o
    pure (forced.1, r.2.filter (fun a => key a ∉ o.map key))
  else pure r

def drainM : ℕ → β → List α → Program Ans β
  | 0, b, _ => pure b
  | _ + 1, b, [] => pure b
  | n + 1, b, a :: as => do
    let r ← runRoundM step key parent b (a :: as)
    drainM n r.1 r.2

/-- The first run and the loop. -/
def processM (b : β) (items : List α) : Program Ans β := do
  let r ← runBatchM step true b items
  drainM step key parent r.2.length r.1 r.2

variable {step key parent}

section running

variable {serve : (r : Req) → σ → Ans r × σ} {pureStep : Bool → τ → α → Bool × τ}
variable (vars : τ → β) (world : τ → σ)
variable (hstep : ∀ d t a, (step d (vars t) a).run serve (world t) =
  (((pureStep d t a).1, vars (pureStep d t a).2), world (pureStep d t a).2))
include hstep

omit [DecidableEq κ] in
theorem run_runBatchM (d : Bool) (t : τ) (as : List α) :
    (runBatchM step d (vars t) as).run serve (world t) =
      let r := runBatch pureStep d t as
      ((vars r.1, r.2), world r.1) := by
  induction as generalizing t with
  | nil => rfl
  | cons a as ih =>
    simp only [runBatchM, runBatch, run_bind, run_pure]
    rw [hstep]
    simp only
    rw [ih]

theorem run_runRoundM (t : τ) (deferred : List α) :
    (runRoundM step key parent (vars t) deferred).run serve (world t) =
      let r := runRound pureStep key parent t deferred
      ((vars r.1, r.2), world r.1) := by
  simp only [runRoundM, runRound, run_bind]
  rw [run_runBatchM vars world hstep]
  generalize runBatch pureStep true t deferred = r
  obtain ⟨t₁, rest⟩ := r
  simp only
  by_cases hstuck : rest.length = deferred.length
  · rw [if_pos hstuck, if_pos hstuck]
    simp only [run_bind, run_pure]
    rw [run_runBatchM vars world hstep]
  · rw [if_neg hstuck, if_neg hstuck]
    rfl

theorem run_drainM (n : ℕ) (t : τ) (deferred : List α) :
    (drainM step key parent n (vars t) deferred).run serve (world t) =
      let t' := drain pureStep key parent n t deferred
      (vars t', world t') := by
  induction n generalizing t deferred with
  | zero => rfl
  | succ n ih =>
    cases deferred with
    | nil => rfl
    | cons a as =>
      simp only [drainM, drain, run_bind]
      rw [run_runRoundM vars world hstep]
      exact ih _ _

variable (key parent) in
/-- A worklist whose steps are programs does what the worklist does. -/
theorem run_processM (t : τ) (items : List α) :
    (processM step key parent (vars t) items).run serve (world t) =
      let t' := process pureStep key parent t items
      (vars t', world t') := by
  simp only [processM, process, run_bind]
  rw [run_runBatchM vars world hstep]
  exact run_drainM vars world hstep _ _ _

end running

section uses

variable {allowed : Req → Prop} (hstep : ∀ d b a, (step d b a).Uses allowed)
include hstep

omit [DecidableEq κ] in
theorem uses_runBatchM (d : Bool) (b : β) (as : List α) :
    (runBatchM step d b as).Uses allowed := by
  induction as generalizing b with
  | nil => exact uses_pure _
  | cons a as ih =>
    exact uses_bind (hstep d b a) (fun _ => uses_bind (ih _) (fun _ => uses_pure _))

theorem uses_drainM (n : ℕ) (b : β) (deferred : List α) :
    (drainM step key parent n b deferred).Uses allowed := by
  induction n generalizing b deferred with
  | zero => exact uses_pure _
  | succ n ih =>
    cases deferred with
    | nil => exact uses_pure _
    | cons a as =>
      have hround : (runRoundM step key parent b (a :: as)).Uses allowed := by
        apply uses_bind (uses_runBatchM hstep true b _)
        intro r
        split
        · exact uses_bind (uses_runBatchM hstep false _ _) (fun _ => uses_pure _)
        · exact uses_pure _
      exact uses_bind hround (fun _ => ih _ _)

theorem uses_processM (b : β) (items : List α) :
    (processM step key parent b items).Uses allowed :=
  uses_bind (uses_runBatchM hstep true b items) (fun _ => uses_drainM hstep _ _ _)

end uses

section reports

variable {mark : Req → Prop} {post : β → Prop}
variable (hstep : ∀ d b a, post b → (step d b a).Reports mark (fun r => post r.2))
include hstep

omit [DecidableEq κ] in
theorem reports_runBatchM (d : Bool) {b : β} (hb : post b) (as : List α) :
    (runBatchM step d b as).Reports mark (fun r => post r.1) := by
  induction as generalizing b with
  | nil => exact reports_pure hb
  | cons a as ih =>
    apply reports_bind (hstep d b a hb)
    intro r hr
    exact reports_bind (ih hr) (fun rest hrest => reports_pure hrest)

theorem reports_runRoundM {b : β} (hb : post b) (deferred : List α) :
    (runRoundM step key parent b deferred).Reports mark (fun r => post r.1) := by
  apply reports_bind (reports_runBatchM hstep true hb deferred)
  intro r hr
  split
  · exact reports_bind (reports_runBatchM hstep false hr _) (fun _ hforced => reports_pure hforced)
  · exact reports_pure hr

theorem reports_drainM (n : ℕ) {b : β} (hb : post b) (deferred : List α) :
    (drainM step key parent n b deferred).Reports mark post := by
  induction n generalizing b deferred with
  | zero => exact reports_pure hb
  | succ n ih =>
    cases deferred with
    | nil => exact reports_pure hb
    | cons a as => exact reports_bind (reports_runRoundM hstep hb (a :: as)) (fun r hr => ih hr r.2)

theorem reports_processM {b : β} (hb : post b) (items : List α) :
    (processM step key parent b items).Reports mark post :=
  reports_bind (reports_runBatchM hstep true hb items) (fun _ hr => reports_drainM hstep _ hr _)

end reports

end GwsMigrator.Worklist
