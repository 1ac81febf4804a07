import GwsMigrator.GuardedRuns
import GwsMigrator.Metering
import Mathlib.Data.Rat.Floor
import Mathlib.Algebra.Order.Ring.Rat
import Mathlib.Tactic.NormNum

/-! `ratelimit.py`: the token bucket under one thread, with exact time. -/
namespace GwsMigrator
open Metering

structure TokenBucket where
  rate : ℚ
  capacity : ℚ
  tokens : ℚ
  lastRefill : ℚ
deriving DecidableEq

namespace TokenBucket

/-- `__init__`. A capacity of 0 is none, to `capacity or rate`. -/
def new (rate : ℚ) (capacity : Option ℚ) (now : ℚ) : TokenBucket :=
  let full := match capacity with
    | some c => if c = 0 then rate else c
    | none => rate
  { rate := rate, capacity := full, tokens := full, lastRefill := now }

/-- `_refill`, at the time `now`. -/
def refill (b : TokenBucket) (now : ℚ) : TokenBucket :=
  let elapsed := now - b.lastRefill
  { b with tokens := min b.capacity (b.tokens + elapsed * b.rate), lastRefill := now }

/-- `acquire` as far as it holds the lock, and how long the caller sleeps after that. -/
def acquire (b : TokenBucket) (tokens now : ℚ) : TokenBucket × ℚ :=
  let full := b.refill now
  let wait := if full.tokens < tokens then (tokens - full.tokens) / full.rate else 0
  ({ full with tokens := max 0 (full.tokens - tokens) }, wait)

end TokenBucket

/-- What a bucket is configured with. -/
structure RateLimit where
  rate : ℚ
  capacity : ℚ
  rate_pos : 0 < rate
  one_le_capacity : 1 ≤ capacity

/-- One thread and its bucket: the time, and when its calls of `acquire` returned, the
latest first. -/
structure Caller where
  bucket : TokenBucket
  now : ℚ
  returns : List ℚ
deriving DecidableEq

namespace Caller

def start (l : RateLimit) (now : ℚ) : Caller :=
  { bucket := .new l.rate (some l.capacity) now, now := now, returns := [] }

/-- After a pause of its own the thread calls `acquire(1)`, and sleeps as long as that asks. -/
def call (st : Caller) (pause : ℚ≥0) : Caller :=
  let called := st.now + pause
  let (bucket, wait) := st.bucket.acquire 1 called
  { bucket := bucket, now := called + wait, returns := (called + wait) :: st.returns }

/-- The latest call slept, so that its sleep lies after the refill it made. -/
def Waited (st : Caller) : Prop := st.bucket.lastRefill < st.now

instance (st : Caller) : Decidable st.Waited := inferInstanceAs (Decidable (_ < _))

/-- A pause in which an empty bucket fills up, if it comes after a call that slept. -/
def Rested (st : Caller) (pause : ℚ≥0) : Prop :=
  st.Waited → st.bucket.capacity ≤ pause * st.bucket.rate

instance (st : Caller) (pause : ℚ≥0) : Decidable (st.Rested pause) :=
  inferInstanceAs (Decidable (_ → _))

/-- The bucket holds what a meter does that has paid for every return so far. -/
structure Paid (l : RateLimit) (st : Caller) : Prop where
  rate : st.bucket.rate = l.rate
  capacity : st.bucket.capacity = l.capacity
  refilled : st.bucket.lastRefill = st.now ∨ (st.Waited ∧ st.bucket.tokens = 0)
  metered : (st.returns = [] ∧ st.bucket.tokens = l.capacity) ∨
    ∃ earlier, st.returns = st.now :: earlier ∧
      Metered l.capacity l.rate st.returns st.bucket.tokens

theorem paid_start (l : RateLimit) (now : ℚ) : Paid l (start l now) := by
  have hcapacity : l.capacity ≠ 0 := by
    have hle := l.one_le_capacity
    intro hzero
    rw [hzero] at hle
    exact absurd hle (by norm_num)
  have hfull : (TokenBucket.new l.rate (some l.capacity) now).capacity = l.capacity :=
    if_neg hcapacity
  exact ⟨rfl, hfull, Or.inl rfl, Or.inl ⟨rfl, hfull⟩⟩

/-- A rested thread finds no more in its bucket than flowed in since its latest return. -/
theorem Paid.refill_tokens {l : RateLimit} {st : Caller} (h : Paid l st) {pause : ℚ≥0}
    (hrested : st.Rested pause) :
    (st.bucket.refill (st.now + pause)).tokens =
      min l.capacity (st.bucket.tokens + l.rate * pause) := by
  simp only [TokenBucket.refill, h.rate, h.capacity]
  rcases h.refilled with hlast | ⟨hwaited, hzero⟩
  · rw [hlast, add_sub_cancel_left, mul_comm]
  · have hfull : l.capacity ≤ l.rate * pause := by
      have hle := hrested hwaited
      rw [h.rate, h.capacity, mul_comm] at hle
      exact hle
    -- the sleep is counted in as well, but the bucket is full without it
    have hsleep : 0 ≤ (st.now - st.bucket.lastRefill) * l.rate :=
      mul_nonneg (sub_nonneg.mpr hwaited.le) l.rate_pos.le
    have hsplit : (st.now + pause - st.bucket.lastRefill) * l.rate =
        (st.now - st.bucket.lastRefill) * l.rate + l.rate * pause := by ring
    rw [hzero, hsplit, min_eq_left (by linarith), min_eq_left (by linarith)]

/-- A call that finds a whole token takes it and returns at once. -/
theorem call_of_le {st : Caller} {pause : ℚ≥0}
    (h : 1 ≤ (st.bucket.refill (st.now + pause)).tokens) :
    st.call pause =
      { bucket := { st.bucket.refill (st.now + pause) with
          tokens := (st.bucket.refill (st.now + pause)).tokens - 1 },
        now := st.now + pause, returns := (st.now + pause) :: st.returns } := by
  simp only [call, TokenBucket.acquire, if_neg h.not_gt, add_zero,
    max_eq_right (sub_nonneg.mpr h)]

/-- A call that does not sleeps until one has flowed in, and leaves nothing. -/
theorem call_of_lt {st : Caller} {pause : ℚ≥0}
    (h : (st.bucket.refill (st.now + pause)).tokens < 1) :
    let wait := (1 - (st.bucket.refill (st.now + pause)).tokens) / st.bucket.rate
    st.call pause =
      { bucket := { st.bucket.refill (st.now + pause) with tokens := 0 },
        now := st.now + pause + wait, returns := (st.now + pause + wait) :: st.returns } := by
  simp only [call, TokenBucket.acquire, if_pos h, max_eq_left (sub_nonpos.mpr h.le)]
  rfl

/-- A call of a rested thread is paid for. -/
theorem Paid.call {l : RateLimit} {st : Caller} (h : Paid l st) {pause : ℚ≥0}
    (hrested : st.Rested pause) : Paid l (st.call pause) := by
  have htokens := h.refill_tokens hrested
  set full := (st.bucket.refill (st.now + pause)).tokens with hfull
  have hcap : full ≤ l.capacity := htokens ▸ min_le_left _ _
  have hflow : full ≤ st.bucket.tokens + l.rate * pause := htokens ▸ min_le_right _ _
  have hpause : (0 : ℚ) ≤ pause := pause.coe_nonneg
  by_cases hone : 1 ≤ full
  · rw [call_of_le hone]
    refine ⟨h.rate, h.capacity, Or.inl rfl, Or.inr ⟨st.returns, rfl, ?_⟩⟩
    rcases h.metered with ⟨hnone, -⟩ | ⟨earlier, hreturns, hmetered⟩
    · simp only [hnone]
      exact .first (by linarith) (by linarith)
    · rw [hreturns] at hmetered
      simp only [hreturns]
      apply hmetered.next (by linarith) (by linarith) (by linarith)
      have helapsed : st.now + pause - st.now = pause := add_sub_cancel_left _ _
      rw [helapsed]
      linarith
  · push Not at hone
    have hwait : 0 < (1 - full) / st.bucket.rate := by
      rw [h.rate]
      exact div_pos (sub_pos.mpr hone) l.rate_pos
    rw [call_of_lt hone]
    refine ⟨h.rate, h.capacity, Or.inr ⟨?_, rfl⟩, Or.inr ⟨st.returns, rfl, ?_⟩⟩
    · exact lt_add_of_pos_right _ hwait
    -- less than a token is less than the capacity, so all that flowed in is there
    have hall : full = st.bucket.tokens + l.rate * pause := by
      rcases min_choice l.capacity (st.bucket.tokens + l.rate * pause) with hmin | hmin
      · have hle := l.one_le_capacity
        rw [htokens, hmin] at hone
        exact absurd hone hle.not_gt
      · exact htokens.trans hmin
    rcases h.metered with ⟨-, htop⟩ | ⟨earlier, hreturns, hmetered⟩
    · have hle := l.one_le_capacity
      have hfill : 0 ≤ l.rate * pause := mul_nonneg l.rate_pos.le hpause
      linarith
    · rw [hreturns] at hmetered
      simp only [hreturns]
      have hroom : (0 : ℚ) ≤ l.capacity - 1 := sub_nonneg.mpr l.one_le_capacity
      apply hmetered.next (by linarith) (le_refl 0) hroom
      have hslept : l.rate * ((1 - full) / st.bucket.rate) = 1 - full := by
        rw [h.rate]
        exact mul_div_cancel₀ _ l.rate_pos.ne'
      have helapsed : l.rate * (st.now + pause + (1 - full) / st.bucket.rate - st.now) =
          l.rate * pause + l.rate * ((1 - full) / st.bucket.rate) := by ring
      rw [helapsed, hslept]
      linarith

/-- In a run in which every call that slept is followed by a rest, every window of time holds
no more returns than the capacity and the rate allow. -/
theorem rate_enforced (l : RateLimit) (t₀ : ℚ) (pauses : List ℚ≥0)
    (h : Runs.Guarded call Rested (start l t₀) pauses) (t d : ℚ) (hd : 0 ≤ d) :
    (pauses.foldl call (start l t₀)).returns.countP (fun x => t ≤ x ∧ x ≤ t + d) ≤
      ⌊l.capacity + l.rate * d⌋₊ := by
  have hpaid := Runs.guarded_run_invariant call (Paid l) Rested
    (fun st pause hpaid hrested => hpaid.call hrested) _ pauses (paid_start l t₀) h
  rcases hpaid.metered with ⟨hnone, -⟩ | ⟨earlier, hreturns, hmetered⟩
  · rw [hnone]
    exact Nat.zero_le _
  · exact hmetered.count_window_floor l.rate_pos.le hd

/-- One token a second, and none in store. -/
def onePerSecond : RateLimit := ⟨1, 1, by norm_num, by norm_num⟩

/-- The second call sleeps and the third comes after a rest. -/
theorem rate_enforced_rested :
    ([0, 0, 1].foldl call (start onePerSecond 0)).returns.countP
      (fun x => (1 : ℚ) ≤ x ∧ x ≤ 1 + 1) ≤ ⌊(1 : ℚ) + 1 * 1⌋₊ :=
  rate_enforced onePerSecond 0 [0, 0, 1] (by decide +kernel) 1 1 (by norm_num)

/-- Without the rest the sleep is credited again: the third call returns with the second. -/
theorem sleep_credited_twice : ¬ ∀ (l : RateLimit) (t₀ : ℚ) (pauses : List ℚ≥0) (t d : ℚ),
    0 ≤ d → (pauses.foldl call (start l t₀)).returns.countP (fun x => t ≤ x ∧ x ≤ t + d) ≤
      ⌊l.capacity + l.rate * d⌋₊ := by
  intro h
  have hcount := h onePerSecond 0 [0, 0, 0] 1 0 (le_refl 0)
  have hreturns : ([0, 0, 0].foldl call (start onePerSecond 0)).returns = [1, 1, 0] := by
    decide +kernel
  rw [hreturns] at hcount
  revert hcount
  decide +kernel

end Caller

end GwsMigrator
