import Mathlib.Data.List.Basic

/-! Calls to an environment that chooses every answer from all that was asked
and answered before, so that any pattern of failures is one such environment. -/
namespace GwsMigrator.Dialogue

variable {Call : Type*}

/-- A call with the answer it got. -/
structure Event (Ans : Call → Type*) where
  call : Call
  answer : Ans call

/-- Newest event first. -/
abbrev Log (Ans : Call → Type*) := List (Event Ans)

abbrev Oracle (Ans : Call → Type*) := Log Ans → (c : Call) → Ans c

variable {Ans : Call → Type*}

end GwsMigrator.Dialogue
