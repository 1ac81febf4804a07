import GwsMigrator.Programs
import Mathlib.Data.List.Chain
import Mathlib.Data.PNat.Basic

/-! A content sent in chunks of one size, the next chunk when the last one was accepted. -/
namespace GwsMigrator.Chunks
open Program Dialogue

variable {α : Type}

/-- The part of a content from `offset` up to but not including `stop`. -/
structure Chunk (α : Type) where
  offset : ℕ
  stop : ℕ
  body : List α

/-- The chunk at an offset. -/
def chunkAt (size : ℕ+) (content : List α) (offset : ℕ) : Chunk α :=
  let stop := min (offset + size) content.length
  ⟨offset, stop, (content.take stop).drop offset⟩

theorem lt_stop (size : ℕ+) {content : List α} {offset : ℕ} (h : offset < content.length) :
    offset < (chunkAt size content offset).stop := by
  have hsize := size.pos
  simp only [chunkAt]
  omega

/-- All chunks from an offset on. -/
def chunksFrom (size : ℕ+) (content : List α) (offset : ℕ) : List (Chunk α) :=
  if offset < content.length then
    chunkAt size content offset :: chunksFrom size content (chunkAt size content offset).stop
  else []
termination_by content.length - offset
decreasing_by
  have hstop := lt_stop size ‹offset < content.length›
  omega

section tiling
variable (size : ℕ+) (content : List α)

theorem stop_le (offset : ℕ) : (chunkAt size content offset).stop ≤ content.length := by
  simp only [chunkAt]
  omega

theorem length_body (offset : ℕ) :
    (chunkAt size content offset).body.length =
      (chunkAt size content offset).stop - offset := by
  simp only [chunkAt, List.length_drop, List.length_take]
  omega

/-- The chunks from an offset are the content behind it. -/
theorem flatMap_body (offset : ℕ) :
    (chunksFrom size content offset).flatMap Chunk.body = content.drop offset := by
  induction offset using chunksFrom.induct size content with
  | case1 offset h ih =>
    have hstop := lt_stop size h
    rw [chunksFrom, if_pos h, List.flatMap_cons, ih]
    -- the chunk ends where the rest begins
    have hbody : (chunkAt size content offset).body =
        (content.drop offset).take ((chunkAt size content offset).stop - offset) := by
      simp only [chunkAt]
      rw [List.drop_take]
    have hrest : content.drop (chunkAt size content offset).stop =
        (content.drop offset).drop ((chunkAt size content offset).stop - offset) := by
      rw [List.drop_drop]
      congr 1
      omega
    rw [hbody, hrest, List.take_append_drop]
  | case2 offset h =>
    rw [chunksFrom, if_neg h, List.flatMap_nil, List.drop_eq_nil_of_le (by omega)]

/-- No chunk is empty or longer than the size. -/
theorem length_of_mem {offset : ℕ} {c : Chunk α} (hc : c ∈ chunksFrom size content offset) :
    0 < c.body.length ∧ c.body.length ≤ size := by
  induction offset using chunksFrom.induct size content with
  | case1 offset h ih =>
    rw [chunksFrom, if_pos h] at hc
    rcases List.mem_cons.mp hc with rfl | hc
    · have hstop := lt_stop size h
      rw [length_body]
      refine ⟨by omega, ?_⟩
      simp only [chunkAt]
      omega
    · exact ih hc
  | case2 offset h =>
    rw [chunksFrom, if_neg h] at hc
    exact absurd hc List.not_mem_nil

/-- Every chunk but the last has the full size. -/
theorem length_of_mem_dropLast {offset : ℕ} {c : Chunk α}
    (hc : c ∈ (chunksFrom size content offset).dropLast) : c.body.length = size := by
  induction offset using chunksFrom.induct size content with
  | case1 offset h ih =>
    rw [chunksFrom, if_pos h] at hc
    cases hrest : chunksFrom size content (chunkAt size content offset).stop with
    | nil =>
      rw [hrest] at hc
      exact absurd hc List.not_mem_nil
    | cons next rest =>
      rw [hrest, List.dropLast_cons_cons] at hc
      rcases List.mem_cons.mp hc with rfl | hc
      · -- more content follows, so this chunk was not cut short
        have hmore : (chunkAt size content offset).stop < content.length := by
          by_contra hend
          rw [chunksFrom, if_neg hend] at hrest
          cases hrest
        rw [length_body]
        simp only [chunkAt] at hmore ⊢
        omega
      · apply ih
        rw [hrest]
        exact hc
  | case2 offset h =>
    rw [chunksFrom, if_neg h] at hc
    exact absurd hc List.not_mem_nil

/-- Intervals of numbers, both ends included, that follow on one another from the first number up
to the second, which is not in any. -/
inductive Tiles : ℕ → ℕ → List (ℕ × ℕ) → Prop
  | done (n : ℕ) : Tiles n n []
  | tile {a b n : ℕ} {rest : List (ℕ × ℕ)} : a ≤ b → Tiles (b + 1) n rest → Tiles a n ((a, b) :: rest)

/-- A chunk as an interval of positions. -/
def Chunk.interval (c : Chunk α) : ℕ × ℕ := (c.offset, c.stop - 1)

theorem chunks_tile {offset : ℕ} (h : offset ≤ content.length) :
    Tiles offset content.length ((chunksFrom size content offset).map Chunk.interval) := by
  induction offset using chunksFrom.induct size content with
  | case1 offset hlt ih =>
    have hstop := lt_stop size hlt
    rw [chunksFrom, if_pos hlt, List.map_cons]
    apply Tiles.tile
    · omega
    · have hback : (chunkAt size content offset).stop - 1 + 1 =
          (chunkAt size content offset).stop := by omega
      rw [hback]
      exact ih (stop_le size content offset)
  | case2 offset hlt =>
    rw [chunksFrom, if_neg hlt]
    have hend : offset = content.length := by omega
    rw [hend]
    exact Tiles.done _

theorem interval_length {offset : ℕ} {c : Chunk α} (hc : c ∈ chunksFrom size content offset) :
    c.stop - 1 - c.offset + 1 = c.body.length := by
  induction offset using chunksFrom.induct size content with
  | case1 offset h ih =>
    rw [chunksFrom, if_pos h] at hc
    rcases List.mem_cons.mp hc with rfl | hc
    · have hstop := lt_stop size h
      rw [length_body]
      change _ - 1 - offset + 1 = _
      omega
    · exact ih hc
  | case2 offset h =>
    rw [chunksFrom, if_neg h] at hc
    exact absurd hc List.not_mem_nil

end tiling

section sending
variable {Req : Type} {Ans : Req → Type} {ε ρ : Type}
variable (size : ℕ+) (content : List α)
variable (put : Chunk α → Req) (read : (c : Chunk α) → Ans (put c) → Except ε ρ)

/-- The loop over the chunks. It ends with what the last request returned, or where one raised. -/
def sendFrom (offset : ℕ) (last : ρ) : Program Ans (Except ε ρ) :=
  if offset < content.length then do
    let c := chunkAt size content offset
    match read c (← perform (put c)) with
    | .error e => pure (.error e)
    | .ok result => sendFrom c.stop result
  else pure (.ok last)
termination_by content.length - offset
decreasing_by
  have hstop := lt_stop size ‹offset < content.length›
  omega

theorem sendFrom_of_lt {offset : ℕ} (h : offset < content.length) (last : ρ) :
    sendFrom size content put read offset last =
      request (put (chunkAt size content offset)) (fun answer =>
        match read (chunkAt size content offset) answer with
        | .error e => pure (.error e)
        | .ok result =>
          sendFrom size content put read (chunkAt size content offset).stop result) := by
  rw [sendFrom, if_pos h]
  rfl

theorem sendFrom_of_not_lt {offset : ℕ} (h : ¬ offset < content.length) (last : ρ) :
    sendFrom size content put read offset last = pure (.ok last) := by
  rw [sendFrom, if_neg h]

/-- What a run of the loop sends: chunks one after the other, all of them if none fails, and none
behind one that failed. -/
theorem sendFrom_sends {σ : Type} (serve : (r : Req) → σ → Ans r × σ) {failed : Event Ans → Prop}
    (hfailed : ∀ c answer, failed ⟨put c, answer⟩ ↔ ∃ error, read c answer = .error error)
    (offset : ℕ) (last : ρ) (s : σ) :
    let sent := (sendFrom size content put read offset last).trace serve s
    (sent.map Event.call <+: (chunksFrom size content offset).map put) ∧
      ((∀ e ∈ sent, ¬ failed e) →
        sent.map Event.call = (chunksFrom size content offset).map put ∧
          ∃ result, ((sendFrom size content put read offset last).run serve s).1 = .ok result) ∧
      ∀ e ∈ sent.dropLast, ¬ failed e := by
  induction offset using chunksFrom.induct size content generalizing last s with
  | case1 offset h ih =>
    rw [sendFrom_of_lt size content put read h, chunksFrom, if_pos h]
    simp only [trace_request, run_request]
    set c := chunkAt size content offset with hc
    generalize serve (put c) s = served
    obtain ⟨answer, s'⟩ := served
    cases hread : read c answer with
    | error error =>
      refine ⟨⟨(chunksFrom size content c.stop).map put, rfl⟩, fun hnone => ?_, by simp⟩
      -- the one request that was sent is the one that failed
      exact absurd ((hfailed c answer).mpr ⟨error, hread⟩) (hnone _ List.mem_cons_self)
    | ok result =>
      obtain ⟨hstart, hall, hlast⟩ := ih result s'
      refine ⟨?_, fun hnone => ?_, ?_⟩
      · rw [List.map_cons, List.map_cons]
        exact (List.prefix_cons_inj _).mpr hstart
      · obtain ⟨hsent, result', hrun⟩ := hall (fun e he => hnone e (List.mem_cons_of_mem _ he))
        refine ⟨?_, result', hrun⟩
        rw [List.map_cons, List.map_cons, hsent]
      · have hfirst : ¬ failed ⟨put c, answer⟩ := by
          rw [hfailed, hread]
          rintro ⟨error, herror⟩
          cases herror
        generalize (sendFrom size content put read c.stop result).trace serve s' = rest at hlast ⊢
        cases rest with
        | nil => simp
        | cons next rest =>
          rw [List.dropLast_cons_cons]
          exact List.forall_mem_cons.mpr ⟨hfirst, hlast⟩
  | case2 offset h =>
    rw [sendFrom_of_not_lt size content put read h, chunksFrom, if_neg h]
    exact ⟨List.prefix_refl _, fun _ => ⟨rfl, last, rfl⟩, by simp⟩

end sending

end GwsMigrator.Chunks
