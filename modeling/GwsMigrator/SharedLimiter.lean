import GwsMigrator.RateLimit
import GwsMigrator.SharedMeters
import Mathlib.Data.List.AList

/-! `ratelimit.py` under the threads of a pool: the named buckets of the registry and of the
limiter per user, what any number of threads can get out of one, and that they do get it. -/
namespace GwsMigrator
open Metering

abbrev Buckets := AList (fun _ : String => TokenBucket)

/-- `acquire` by name, as far as locks are held. A bucket that is made for it is full whenever it
was made, so that it can be made when its own lock is taken. -/
def Buckets.acquire (missing : String → ℚ → Except String TokenBucket) (buckets : Buckets)
    (name : String) (tokens now : ℚ) : Except String (Buckets × ℚ) :=
  match buckets.lookup name with
  | some bucket =>
    let (bucket, wait) := bucket.acquire tokens now
    .ok (buckets.insert name bucket, wait)
  | none =>
    match missing name now with
    | .error text => .error text
    | .ok bucket =>
      let (bucket, wait) := bucket.acquire tokens now
      .ok (buckets.insert name bucket, wait)

namespace RateLimiterRegistry

/-- `register`, at the time `now`. -/
def register (buckets : Buckets) (name : String) (rate : ℚ) (capacity : Option ℚ) (now : ℚ) :
    Buckets :=
  buckets.insert name (.new rate capacity now)

def acquire : Buckets → String → ℚ → ℚ → Except String (Buckets × ℚ) :=
  Buckets.acquire (fun name _ => .error ("No rate limiter registered for '" ++ name ++ "'"))

end RateLimiterRegistry

def PerUserRateLimiter.acquire (rate : ℚ) (capacity : Option ℚ) :
    Buckets → String → ℚ → ℚ → Except String (Buckets × ℚ) :=
  Buckets.acquire (fun _ now => .ok (.new rate capacity now))

variable {ι : Type}

/-- A thread that calls `acquire(name)`: when it holds the lock of the bucket, and how much longer
than it is told it then sleeps. -/
structure Acquire (ι : Type) where
  thread : ι
  name : String
  now : ℚ
  late : ℚ≥0

/-- What is known of such a call once it has returned. -/
structure Acquired (ι : Type) where
  thread : ι
  name : String
  taken : ℚ
  wait : ℚ
  late : ℚ≥0

def Acquired.returned (a : Acquired ι) : ℚ := a.taken + a.wait + a.late

/-- The call as the meter sees it: what it does not wait for it got at once. -/
def Acquired.call (rate : ℚ) (a : Acquired ι) : Call ι ℚ :=
  ⟨a.thread, a.taken, 1 - rate * a.wait, a.returned⟩

/-- The buckets, and the calls of all threads, the latest first. -/
structure Crowd (ι : Type) where
  buckets : Buckets := ∅
  log : List (Acquired ι) := []

namespace Crowd

/-- One call, by whichever thread gets the lock. -/
def step (acquire : Buckets → String → ℚ → ℚ → Except String (Buckets × ℚ)) (c : Crowd ι)
    (a : Acquire ι) : Crowd ι :=
  match acquire c.buckets a.name 1 a.now with
  | .error _ => c
  | .ok (buckets, wait) =>
    { buckets := buckets, log := ⟨a.thread, a.name, a.now, wait, a.late⟩ :: c.log }

/-- The clock does not go back for a bucket, and a thread is in one call at a time. -/
structure May (c : Crowd ι) (a : Acquire ι) : Prop where
  clock : ∀ b ∈ c.buckets.lookup a.name, b.lastRefill ≤ a.now
  alone : ∀ r ∈ c.log, r.thread = a.thread → r.returned ≤ a.now

/-- How often `acquire(name)` has returned in a window of time. -/
def returnsIn (c : Crowd ι) (name : String) (t d : ℚ) : ℕ :=
  c.log.countP (fun r => r.name = name ∧ t ≤ r.returned ∧ r.returned ≤ t + d)

def ofName (c : Crowd ι) (name : String) : List (Acquired ι) :=
  c.log.filter (fun r => r.name = name)

end Crowd

/-- A bucket as it is configured. -/
structure BucketConfig where
  rate : ℚ
  capacity : Option ℚ
  rate_pos : 0 < rate
  capacity_nonneg : ∀ c ∈ capacity, 0 ≤ c

namespace BucketConfig

variable (cfg : BucketConfig)

def new (now : ℚ) : TokenBucket := .new cfg.rate cfg.capacity now

/-- The capacity that the bucket comes to have. -/
def full : ℚ := (cfg.new 0).capacity

theorem full_nonneg : 0 ≤ cfg.full := by
  unfold full new TokenBucket.new
  cases h : cfg.capacity with
  | none => exact cfg.rate_pos.le
  | some c =>
    simp only
    split
    · exact cfg.rate_pos.le
    · exact cfg.capacity_nonneg c h

end BucketConfig

/-- What a call does to a bucket that holds no more than its capacity. -/
theorem TokenBucket.acquire_one (b : TokenBucket) (hrate : 0 < b.rate) (now : ℚ)
    (hfull : 0 ≤ (b.refill now).tokens) :
    let r := b.acquire 1 now
    r.1.rate = b.rate ∧ r.1.capacity = b.capacity ∧ r.1.lastRefill = now ∧
      0 ≤ r.1.tokens ∧ 0 ≤ r.2 ∧ 0 ≤ 1 - b.rate * r.2 ∧
      r.1.tokens + (1 - b.rate * r.2) = (b.refill now).tokens := by
  intro r
  have hrefill : (b.refill now).rate = b.rate := rfl
  refine ⟨rfl, rfl, rfl, ?_⟩
  simp only [r, TokenBucket.acquire, hrefill]
  by_cases hless : (b.refill now).tokens < 1
  · -- it waits for the rest of its token, and leaves nothing behind
    rw [if_pos hless]
    have hslept : b.rate * ((1 - (b.refill now).tokens) / b.rate) = 1 - (b.refill now).tokens :=
      mul_div_cancel₀ _ hrate.ne'
    rw [hslept, max_eq_left (by linarith)]
    refine ⟨le_refl 0, ?_, by linarith, by ring⟩
    exact div_nonneg (by linarith) hrate.le
  · rw [if_neg hless, max_eq_right (by linarith)]
    exact ⟨by linarith, le_refl 0, by linarith, by ring⟩

namespace Crowd

variable {missing : String → ℚ → Except String TokenBucket} {cfg : BucketConfig} {name : String}

/-- The bucket of a name was not asked yet, and is full or made full when it is, or it holds what a
shared meter does that has given what the calls of that name got. -/
def Accounted (missing : String → ℚ → Except String TokenBucket) (cfg : BucketConfig)
    (name : String) (c : Crowd ι) : Prop :=
  (c.ofName name = [] ∧
    ((c.buckets.lookup name = none ∧ ∀ now, missing name now = .ok (cfg.new now)) ∨
      ∃ t₀, c.buckets.lookup name = some (cfg.new t₀))) ∨
  ∃ b a rest, c.buckets.lookup name = some b ∧ c.ofName name = a :: rest ∧
    b.rate = cfg.rate ∧ b.capacity = cfg.full ∧ b.lastRefill = a.taken ∧
    Shared cfg.full cfg.rate ((a :: rest).map (Acquired.call cfg.rate)) b.tokens

/-- A call of the name itself, when its bucket is there with what the meter holds. -/
theorem Accounted.call {c : Crowd ι} {a : Acquire ι} (hname : a.name = name) (hmay : c.May a)
    {b : TokenBucket} {level : ℚ} (hrate : b.rate = cfg.rate) (hcapacity : b.capacity = cfg.full)
    (hclock : b.lastRefill ≤ a.now)
    (hlevel : level = b.tokens)
    (hshared : Shared cfg.full cfg.rate ((c.ofName name).map (Acquired.call cfg.rate)) level)
    (hlast : ∀ r ∈ (c.ofName name).head?, b.lastRefill = r.taken) :
    Accounted missing cfg name
      { buckets := c.buckets.insert name (b.acquire 1 a.now).1
        log := ⟨a.thread, a.name, a.now, (b.acquire 1 a.now).2, a.late⟩ :: c.log } := by
  have htokens : (b.refill a.now).tokens =
      min cfg.full (b.tokens + (a.now - b.lastRefill) * cfg.rate) := by
    simp only [TokenBucket.refill, hrate, hcapacity]
  have hflow : 0 ≤ (a.now - b.lastRefill) * cfg.rate :=
    mul_nonneg (sub_nonneg.mpr hclock) cfg.rate_pos.le
  have hfull : 0 ≤ (b.refill a.now).tokens := by
    rw [htokens]
    exact le_min cfg.full_nonneg (by linarith [hshared.nonneg])
  obtain ⟨hrate', hcapacity', hlast', hnonneg, hwait, hgets, hsum⟩ :=
    b.acquire_one (hrate ▸ cfg.rate_pos) a.now hfull
  rw [hrate] at hgets hsum
  have hlate : (0 : ℚ) ≤ a.late := a.late.coe_nonneg
  refine Or.inr ⟨_, ⟨a.thread, a.name, a.now, (b.acquire 1 a.now).2, a.late⟩, c.ofName name,
    AList.lookup_insert _, ?_, hrate'.trans hrate, hcapacity'.trans hcapacity, hlast', ?_⟩
  · simp [ofName, hname]
  · rw [List.map_cons]
    refine hshared.next hnonneg hgets ?_ ?_ ?_ ?_ ?_
    · change _ + (1 - cfg.rate * _) ≤ cfg.full
      rw [hsum, htokens]
      exact min_le_left _ _
    · intro x hx
      rw [List.head?_map] at hx
      obtain ⟨r, hr, rfl⟩ := Option.map_eq_some_iff.mp hx
      have htaken := hlast r hr
      refine ⟨htaken.symm.trans_le hclock, ?_⟩
      change _ + (1 - cfg.rate * _) ≤ level + cfg.rate * (a.now - r.taken)
      rw [hsum, htokens, ← htaken, hlevel, mul_comm cfg.rate]
      exact min_le_right _ _
    · change 1 ≤ 1 - cfg.rate * (b.acquire 1 a.now).2 +
        cfg.rate * (a.now + (b.acquire 1 a.now).2 + a.late - a.now)
      have hstay : cfg.rate * (a.now + (b.acquire 1 a.now).2 + a.late - a.now) =
          cfg.rate * (b.acquire 1 a.now).2 + cfg.rate * a.late := by ring
      have hlonger : 0 ≤ cfg.rate * a.late := mul_nonneg cfg.rate_pos.le hlate
      rw [hstay]
      linarith
    · change a.now ≤ a.now + (b.acquire 1 a.now).2 + a.late
      linarith
    · intro x hx hthread
      obtain ⟨r, hr, rfl⟩ := List.mem_map.mp hx
      exact hmay.alone r (List.mem_of_mem_filter hr) hthread

/-- Every call keeps the bucket of a name accounted for. -/
theorem Accounted.step {c : Crowd ι} (h : Accounted missing cfg name c) {a : Acquire ι}
    (hmay : c.May a) : Accounted missing cfg name (c.step (Buckets.acquire missing) a) := by
  by_cases hname : a.name = name
  · subst hname
    rcases h with ⟨hnone, ⟨hlookup, hmissing⟩ | ⟨t₀, hlookup⟩⟩ |
      ⟨b, r, rest, hlookup, hlog, hrate, hcapacity, hlast, hshared⟩
    · simp only [Crowd.step, Buckets.acquire, hlookup, hmissing]
      refine Accounted.call rfl hmay (b := cfg.new a.now) rfl rfl (le_refl _) rfl ?_ ?_
      · rw [hnone]
        exact .none cfg.full_nonneg (le_refl _)
      · rw [hnone]
        simp
    · simp only [Crowd.step, Buckets.acquire, hlookup]
      refine Accounted.call rfl hmay rfl rfl (hmay.clock _ hlookup) rfl ?_ ?_
      · rw [hnone]
        exact .none cfg.full_nonneg (le_refl _)
      · rw [hnone]
        simp
    · simp only [Crowd.step, Buckets.acquire, hlookup]
      refine Accounted.call rfl hmay hrate hcapacity (hmay.clock _ hlookup) rfl ?_ ?_
      · rw [hlog]
        exact hshared
      · rw [hlog]
        rintro r' hr'
        obtain rfl := Option.some.inj hr'
        exact hlast
  · -- another bucket
    have hother : ∀ (b : TokenBucket) (wait : ℚ), Accounted missing cfg name
        { buckets := c.buckets.insert a.name b
          log := ⟨a.thread, a.name, a.now, wait, a.late⟩ :: c.log } := by
      intro b wait
      have hlookup : (c.buckets.insert a.name b).lookup name = c.buckets.lookup name :=
        AList.lookup_insert_ne (fun he => hname he.symm)
      unfold Accounted ofName at h ⊢
      rw [List.filter_cons_of_neg (by simpa using hname), hlookup]
      exact h
    unfold Crowd.step Buckets.acquire
    cases hlookup : c.buckets.lookup a.name with
    | some b => exact hother _ _
    | none =>
      cases missing a.name a.now with
      | error text => exact h
      | ok b => exact hother _ _

/-- What an accounted bucket can have given in a window. -/
theorem Accounted.returnsIn_le [Fintype ι] {c : Crowd ι} (h : Accounted missing cfg name c)
    (t : ℚ) {d : ℚ} (hd : 0 ≤ d) : (c.returnsIn name t d : ℚ) ≤
      cfg.full + Fintype.card ι + (Fintype.card ι + 1) * (cfg.rate * d) := by
  classical
  have hcount : c.returnsIn name t d = ((c.ofName name).map (Acquired.call cfg.rate)).countP
      (fun x => t ≤ x.returned ∧ x.returned ≤ t + d) := by
    rw [returnsIn, ofName, List.countP_map, List.countP_filter]
    congr 1
    funext r
    simp only [Acquired.call, Function.comp_apply, Bool.decide_and]
    rw [Bool.and_comm]
    rfl
  have hlength : t + d - t = d := add_sub_cancel_left t d
  rw [hcount]
  rcases h with ⟨hnone, -⟩ | ⟨b, r, rest, -, hlog, -, -, -, hshared⟩
  · have hflow : 0 ≤ cfg.rate * d := mul_nonneg cfg.rate_pos.le hd
    have hcard : (0 : ℚ) ≤ Fintype.card ι := Nat.cast_nonneg _
    rw [hnone]
    simp only [List.map_nil, List.countP_nil, Nat.cast_zero]
    exact add_nonneg (add_nonneg cfg.full_nonneg hcard)
      (mul_nonneg (by linarith) hflow)
  · rw [hlog]
    have hwindow := hshared.count_window cfg.full_nonneg cfg.rate_pos.le
      (show t ≤ t + d by linarith)
    rwa [hlength] at hwindow

theorem Accounted.run {c : Crowd ι} (h : Accounted missing cfg name c)
    {calls : List (Acquire ι)}
    (hcalls : Runs.Guarded (Crowd.step (Buckets.acquire missing)) May c calls) :
    Accounted missing cfg name (calls.foldl (Crowd.step (Buckets.acquire missing)) c) :=
  Runs.guarded_run_invariant _ (Accounted missing cfg name) May
    (fun _ _ h hmay => h.step hmay) c calls h hcalls

end Crowd

/-! A schedule of `n + 1` threads that gets out of a bucket what they can: whoever finds a unit
takes it, and then they all ask at once. -/

namespace TokenBucket

variable {b : TokenBucket} (hrate : 0 < b.rate)

/-- A call that finds at least one token. -/
theorem acquire_whole {now : ℚ} (hlast : b.lastRefill = now) (hone : 1 ≤ b.tokens)
    (hcapacity : b.tokens ≤ b.capacity) :
    b.acquire 1 now = ({ b with tokens := b.tokens - 1 }, 0) := by
  have hrefill : b.refill now = b := by
    simp only [refill, hlast, sub_self, zero_mul, add_zero, min_eq_right hcapacity]
    rw [← hlast]
  simp only [acquire, hrefill, if_neg hone.not_gt, max_eq_right (sub_nonneg.mpr hone)]

/-- A call that finds less. -/
theorem acquire_part {now : ℚ} (hlast : b.lastRefill = now) (hless : b.tokens < 1)
    (hcapacity : b.tokens ≤ b.capacity) :
    b.acquire 1 now = ({ b with tokens := 0 }, (1 - b.tokens) / b.rate) := by
  have hrefill : b.refill now = b := by
    simp only [refill, hlast, sub_self, zero_mul, add_zero, min_eq_right hcapacity]
    rw [← hlast]
  simp only [acquire, hrefill, if_pos hless, max_eq_left (sub_nonpos.mpr hless.le)]

include hrate in
/-- The first call after the time in which an empty bucket gets a token. -/
theorem acquire_unit (hempty : b.tokens = 0) (hcapacity : 1 ≤ b.capacity) :
    b.acquire 1 (b.lastRefill + 1 / b.rate) =
      ({ b with tokens := 0, lastRefill := b.lastRefill + 1 / b.rate }, 0) := by
  have hflow : (b.lastRefill + 1 / b.rate - b.lastRefill) * b.rate = 1 := by
    rw [add_sub_cancel_left]
    exact one_div_mul_cancel hrate.ne'
  simp only [acquire, refill, hempty, zero_add, hflow, min_eq_right hcapacity, lt_irrefl, if_false,
    sub_self, max_self]

end TokenBucket

namespace Crowd

variable {n : ℕ} {missing : String → ℚ → Except String TokenBucket} {name : String}

/-- One round at a moment: the first thread asks twice, and the others once. -/
def round (n : ℕ) (name : String) (now : ℚ) : List (Acquire (Fin (n + 1))) :=
  ⟨0, name, now, 0⟩ :: (List.finRange (n + 1)).map (fun i => ⟨i, name, now, 0⟩)

def rounds (n : ℕ) (name : String) (wait : ℚ) : ℚ → ℕ → List (Acquire (Fin (n + 1)))
  | _, 0 => []
  | now, m + 1 => round n name (now + wait) ++ rounds n name wait (now + wait) m

variable (missing) in
theorem step_of_lookup {c : Crowd ι} {a : Acquire ι} {b : TokenBucket}
    (h : c.buckets.lookup a.name = some b) : c.step (Buckets.acquire missing) a =
      { buckets := c.buckets.insert a.name (b.acquire 1 a.now).1
        log := ⟨a.thread, a.name, a.now, (b.acquire 1 a.now).2, a.late⟩ :: c.log } := by
  simp only [step, Buckets.acquire, h]

/-- The bucket is empty since `now`, and everybody will be back when it has a token. -/
structure Drained (rate capacity : ℚ) (name : String) (now : ℚ) (c : Crowd ι) : Prop where
  bucket : c.buckets.lookup name = some ⟨rate, capacity, 0, now⟩
  back : ∀ r ∈ c.log, r.returned ≤ now + 1 / rate

variable {rate capacity : ℚ}

variable (missing name) in
/-- Threads that ask an empty bucket all sleep until it would have a token. -/
theorem sleepers (hcapacity : 0 ≤ capacity) (now : ℚ) (threads : List ι)
    (hthreads : threads.Nodup) {c : Crowd ι}
    (hbucket : c.buckets.lookup name = some ⟨rate, capacity, 0, now⟩)
    (hfree : ∀ r ∈ c.log, r.thread ∈ threads → r.returned ≤ now) :
    let calls := threads.map (fun i => (⟨i, name, now, 0⟩ : Acquire ι))
    let c' := calls.foldl (step (Buckets.acquire missing)) c
    Runs.Guarded (step (Buckets.acquire missing)) May c calls ∧
      c'.buckets.lookup name = some ⟨rate, capacity, 0, now⟩ ∧
      c'.log = (threads.map (fun i => ⟨i, name, now, 1 / rate, 0⟩)).reverse ++ c.log := by
  induction threads generalizing c with
  | nil => exact ⟨trivial, hbucket, rfl⟩
  | cons i threads ih =>
    obtain ⟨hi, hrest⟩ := List.nodup_cons.mp hthreads
    have hpart : (⟨rate, capacity, 0, now⟩ : TokenBucket).acquire 1 now =
        (⟨rate, capacity, 0, now⟩, 1 / rate) := by
      rw [TokenBucket.acquire_part rfl (by norm_num) hcapacity, sub_zero]
    have hstep := step_of_lookup missing (a := ⟨i, name, now, 0⟩) hbucket
    rw [hpart] at hstep
    have hmay : c.May ⟨i, name, now, 0⟩ := by
      refine ⟨fun b hb => ?_, fun r hr hthread => hfree r hr (hthread ▸ List.mem_cons_self)⟩
      obtain rfl := Option.some.inj (hbucket.symm.trans hb)
      exact le_refl _
    have hnext := ih hrest (c := c.step (Buckets.acquire missing) ⟨i, name, now, 0⟩)
      (by rw [hstep]; exact AList.lookup_insert _) (by
        rw [hstep]
        intro r hr hthread
        rcases List.mem_cons.mp hr with rfl | hr
        · exact absurd hthread hi
        · exact hfree r hr (List.mem_cons_of_mem i hthread))
    obtain ⟨hguard, hlookup, hlog⟩ := hnext
    refine ⟨⟨hmay, hguard⟩, hlookup, ?_⟩
    rw [List.map_cons, List.foldl_cons, hlog, hstep]
    simp

variable (missing) in
/-- A round gives `n + 2` calls their turn, and leaves the bucket empty. -/
theorem Drained.round (hrate : 0 < rate) (hcapacity : 1 ≤ capacity) {now : ℚ}
    {c : Crowd (Fin (n + 1))} (h : Drained rate capacity name now c) {t d : ℚ}
    (ht : t ≤ now + 1 / rate) (hd : now + 1 / rate + 1 / rate ≤ t + d) :
    let calls := Crowd.round n name (now + 1 / rate)
    let c' := calls.foldl (step (Buckets.acquire missing)) c
    Runs.Guarded (step (Buckets.acquire missing)) May c calls ∧
      Drained rate capacity name (now + 1 / rate) c' ∧
      c'.returnsIn name t d = c.returnsIn name t d + (n + 2) := by
  have hunit : 0 < 1 / rate := one_div_pos.mpr hrate
  have hfirst := TokenBucket.acquire_unit (b := ⟨rate, capacity, 0, now⟩) hrate rfl hcapacity
  simp only at hfirst
  have hstep := step_of_lookup missing (a := ⟨0, name, now + 1 / rate, 0⟩) h.bucket
  simp only [hfirst] at hstep
  have hmay : c.May ⟨0, name, now + 1 / rate, 0⟩ := by
    refine ⟨fun b hb => ?_, fun r hr _ => h.back r hr⟩
    obtain rfl := Option.some.inj (h.bucket.symm.trans hb)
    exact le_add_of_nonneg_right hunit.le
  set c₁ := c.step (Buckets.acquire missing) ⟨0, name, now + 1 / rate, 0⟩ with hc₁
  obtain ⟨hguard, hlookup, hlog⟩ := sleepers missing name
    (zero_le_one.trans hcapacity) (now + 1 / rate) (List.finRange (n + 1)) (List.nodup_finRange _)
    (c := c₁) (by rw [hstep]; exact AList.lookup_insert _) (by
      rw [hstep]
      intro r hr _
      rcases List.mem_cons.mp hr with rfl | hr
      · simp [Acquired.returned]
      · exact h.back r hr)
  refine ⟨⟨hmay, hguard⟩, ⟨hlookup, ?_⟩, ?_⟩
  · rw [Crowd.round, List.foldl_cons, hlog, hstep]
    intro r hr
    rcases List.mem_append.mp hr with hr | hr
    · obtain ⟨i, -, rfl⟩ := List.mem_map.mp (List.mem_reverse.mp hr)
      simp [Acquired.returned]
    · rcases List.mem_cons.mp hr with rfl | hr
      · simp [Acquired.returned, hrate.le]
      · exact (h.back r hr).trans (le_add_of_nonneg_right hunit.le)
  · set p : Acquired (Fin (n + 1)) → Bool := fun r =>
      decide (r.name = name ∧ t ≤ r.returned ∧ r.returned ≤ t + d) with hp
    have hsleepers : ((List.finRange (n + 1)).map
        (fun i => (⟨i, name, now + 1 / rate, 1 / rate, 0⟩ : Acquired (Fin (n + 1))))).countP p =
        n + 1 := by
      rw [List.countP_eq_length.mpr, List.length_map, List.length_finRange]
      intro r hr
      obtain ⟨i, -, rfl⟩ := List.mem_map.mp hr
      simp only [hp, Acquired.returned, NNRat.coe_zero, add_zero]
      exact decide_eq_true ⟨trivial, by linarith, hd⟩
    have hone : p ⟨0, name, now + 1 / rate, 0, 0⟩ = true := by
      simp only [hp, Acquired.returned, NNRat.coe_zero, add_zero]
      exact decide_eq_true ⟨trivial, ht, by linarith⟩
    change List.countP p _ = List.countP p _ + _
    rw [Crowd.round, List.foldl_cons, hlog, hstep, List.countP_append, List.countP_reverse,
      hsleepers, List.countP_cons_of_pos hone]
    omega

variable (missing) in
/-- Any number of rounds, one after the other. -/
theorem Drained.rounds (hrate : 0 < rate) (hcapacity : 1 ≤ capacity) (m : ℕ) {now : ℚ}
    {c : Crowd (Fin (n + 1))} (h : Drained rate capacity name now c) {t d : ℚ}
    (ht : t ≤ now + 1 / rate) (hd : now + 1 / rate + m * (1 / rate) ≤ t + d) :
    let calls := Crowd.rounds n name (1 / rate) now m
    let c' := calls.foldl (step (Buckets.acquire missing)) c
    Runs.Guarded (step (Buckets.acquire missing)) May c calls ∧
      c'.returnsIn name t d = c.returnsIn name t d + (n + 2) * m := by
  induction m generalizing now c with
  | zero => exact ⟨trivial, rfl⟩
  | succ m ih =>
    have hunit : 0 < 1 / rate := one_div_pos.mpr hrate
    have hm : (0 : ℚ) ≤ m * (1 / rate) := mul_nonneg (Nat.cast_nonneg m) hunit.le
    have hlength : now + 1 / rate + ((m + 1 : ℕ) : ℚ) * (1 / rate) =
        now + 1 / rate + 1 / rate + m * (1 / rate) := by
      push_cast
      ring
    rw [hlength] at hd
    obtain ⟨hguard, hdrained, hcount⟩ := h.round missing hrate hcapacity ht
      ((le_add_of_nonneg_right hm).trans hd)
    obtain ⟨hguards, hcounts⟩ := ih hdrained
      (ht.trans (le_add_of_nonneg_right hunit.le)) hd
    intro calls c'
    refine ⟨(Runs.guarded_append ..).mpr ⟨hguard, hguards⟩, ?_⟩
    simp only [c', calls, Crowd.rounds, List.foldl_append]
    rw [hcounts, hcount]
    ring

variable (missing) in
/-- The first thread takes what a bucket holds. -/
theorem drain (hrate : 0 < rate) (now : ℚ) (k : ℕ) (held : ℚ) (hk : (k : ℚ) ≤ held)
    (hless : held < k + 1) (hheld : held ≤ capacity) {c : Crowd (Fin (n + 1))}
    (hbucket : c.buckets.lookup name = some ⟨rate, capacity, held, now⟩)
    (hback : ∀ r ∈ c.log, r.returned ≤ now) :
    let calls := List.replicate (k + 1) (⟨0, name, now, 0⟩ : Acquire (Fin (n + 1)))
    Runs.Guarded (step (Buckets.acquire missing)) May c calls ∧
      Drained rate capacity name now (calls.foldl (step (Buckets.acquire missing)) c) := by
  have hunit : 0 < 1 / rate := one_div_pos.mpr hrate
  have hmay : c.May ⟨0, name, now, 0⟩ := by
    refine ⟨fun b hb => ?_, fun r hr _ => hback r hr⟩
    obtain rfl := Option.some.inj (hbucket.symm.trans hb)
    exact le_refl _
  have hstep := step_of_lookup missing (a := ⟨0, name, now, 0⟩) hbucket
  induction k generalizing held c with
  | zero =>
    -- less than a token is left: the thread waits, at most as long as for a whole one
    rw [Nat.cast_zero] at hk hless
    rw [zero_add] at hless
    rw [TokenBucket.acquire_part rfl hless hheld] at hstep
    refine ⟨⟨hmay, trivial⟩, ⟨?_, ?_⟩⟩
    · change (c.step _ _).buckets.lookup name = _
      rw [hstep]
      exact AList.lookup_insert _
    · change ∀ r ∈ (c.step _ _).log, _
      rw [hstep]
      intro r hr
      rcases List.mem_cons.mp hr with rfl | hr
      · simp only [Acquired.returned, NNRat.coe_zero, add_zero]
        have hdiv : (1 - held) / rate ≤ 1 / rate :=
          div_le_div_of_nonneg_right (by linarith) hrate.le
        exact add_le_add (le_refl now) hdiv
      · exact (hback r hr).trans (le_add_of_nonneg_right hunit.le)
  | succ k ih =>
    push_cast at hk hless
    have hone : (1 : ℚ) ≤ held := by
      have hcast : (0 : ℚ) ≤ k := Nat.cast_nonneg k
      linarith
    rw [TokenBucket.acquire_whole rfl hone hheld] at hstep
    have hlookup : (c.step (Buckets.acquire missing) ⟨0, name, now, 0⟩).buckets.lookup name =
        some ⟨rate, capacity, held - 1, now⟩ := by
      rw [hstep]
      exact AList.lookup_insert _
    have hreturned : ∀ r ∈ (c.step (Buckets.acquire missing) ⟨0, name, now, 0⟩).log,
        r.returned ≤ now := by
      rw [hstep]
      intro r hr
      rcases List.mem_cons.mp hr with rfl | hr
      · simp [Acquired.returned]
      · exact hback r hr
    obtain ⟨hguard, hdrained⟩ := ih (held - 1) (by linarith) (by linarith) (by linarith) hlookup
      hreturned (by
        refine ⟨fun b hb => ?_, fun r hr _ => hreturned r hr⟩
        obtain rfl := Option.some.inj (hlookup.symm.trans hb)
        exact le_refl _) (step_of_lookup missing hlookup)
    exact ⟨⟨hmay, hguard⟩, hdrained⟩

end Crowd

/-- Whatever the threads of a pool ask of a bucket and in whatever order they get its lock, of the
limiter per user or of the registry, a window of time holds no more returns than its capacity, one
for each thread, and what flows in once and again for each thread. Under some schedule a pool that
asks all the time does get that rate of a bucket of the registry that holds a token or more: with
`n + 1` threads it is `n + 2` times what is configured. -/
theorem threads_share_rate (cfg : BucketConfig) (name : String) :
    (∀ {ι : Type} [Fintype ι] (calls : List (Acquire ι)),
      let step := Crowd.step (PerUserRateLimiter.acquire cfg.rate cfg.capacity)
      Runs.Guarded step Crowd.May {} calls → ∀ t d, 0 ≤ d →
        ((calls.foldl step {}).returnsIn name t d : ℚ) ≤
          cfg.full + Fintype.card ι + (Fintype.card ι + 1) * (cfg.rate * d)) ∧
    (∀ {ι : Type} [Fintype ι] (buckets : Buckets) (t₀ : ℚ) (calls : List (Acquire ι)),
      let step := Crowd.step RateLimiterRegistry.acquire
      let start : Crowd ι :=
        { buckets := RateLimiterRegistry.register buckets name cfg.rate cfg.capacity t₀ }
      Runs.Guarded step Crowd.May start calls → ∀ t d, 0 ≤ d →
        ((calls.foldl step start).returnsIn name t d : ℚ) ≤
          cfg.full + Fintype.card ι + (Fintype.card ι + 1) * (cfg.rate * d)) ∧
    (1 ≤ cfg.full → ∀ (buckets : Buckets) (n m : ℕ),
      ∃ (calls : List (Acquire (Fin (n + 1)))) (t : ℚ),
      let step := Crowd.step RateLimiterRegistry.acquire
      let start : Crowd (Fin (n + 1)) :=
        { buckets := RateLimiterRegistry.register buckets name cfg.rate cfg.capacity 0 }
      Runs.Guarded step Crowd.May start calls ∧
        (n + 2) * m ≤ (calls.foldl step start).returnsIn name t (m / cfg.rate)) := by
  refine ⟨fun calls hcalls t d hd => ?_, fun buckets t₀ calls hcalls t d hd => ?_,
    fun hfull buckets n m => ?_⟩
  · refine Crowd.Accounted.returnsIn_le
      (Crowd.Accounted.run (Or.inl ⟨rfl, Or.inl ⟨rfl, ?_⟩⟩) hcalls) t hd
    exact fun _ => rfl
  · refine Crowd.Accounted.returnsIn_le (Crowd.Accounted.run (Or.inl ⟨rfl, Or.inr ⟨t₀, ?_⟩⟩) hcalls)
      t hd
    exact AList.lookup_insert _
  · set start : Crowd (Fin (n + 1)) :=
      { buckets := RateLimiterRegistry.register buckets name cfg.rate cfg.capacity 0 }
    have hbucket : start.buckets.lookup name = some ⟨cfg.rate, cfg.full, cfg.full, 0⟩ :=
      AList.lookup_insert _
    obtain ⟨hguard, hdrained⟩ := Crowd.drain
      (fun name _ => .error ("No rate limiter registered for '" ++ name ++ "'"))
      cfg.rate_pos 0 ⌊cfg.full⌋₊ cfg.full
      (Nat.floor_le cfg.full_nonneg) (Nat.lt_floor_add_one _) (le_refl _) hbucket (by simp [start])
    have hm : (m : ℚ) / cfg.rate = m * (1 / cfg.rate) := div_eq_mul_one_div _ _
    obtain ⟨hguards, hcount⟩ := hdrained.rounds
      (fun name _ => .error ("No rate limiter registered for '" ++ name ++ "'"))
      cfg.rate_pos hfull m (le_refl _) (le_of_eq (congrArg _ hm.symm))
    refine ⟨_ ++ _, 0 + 1 / cfg.rate, (Runs.guarded_append ..).mpr ⟨hguard, hguards⟩, ?_⟩
    rw [List.foldl_append]
    exact hcount.symm ▸ Nat.le_add_left _ _

end GwsMigrator
