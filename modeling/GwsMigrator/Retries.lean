import Mathlib.Data.List.Basic

/-! A call that is made again after some of its failures, and what is left of it at the other end
when an attempt can be carried out without its answer coming back. -/
namespace GwsMigrator.Retries

/-- Which failures are worth another attempt, how many attempts there are at most, and what
happens between the `n`-th and the next one. -/
structure Policy (σ ε : Type) where
  retryable : ε → Bool
  maxAttempts : ℕ
  pause : ε → ℕ → σ → σ

variable {σ α ε : Type}

/-- The attempts from the `n`-th on, by the states they start from, and what they end with. -/
inductive Retried (p : Policy σ ε) (attempt : σ → Except ε α × σ) :
    ℕ → σ → List σ → Except ε α → σ → Prop
  | returned {n : ℕ} {s s' : σ} {a : α} (tried : attempt s = (.ok a, s')) :
      Retried p attempt n s [s] (.ok a) s'
  | raised {n : ℕ} {s s' : σ} {e : ε} (tried : attempt s = (.error e, s'))
      (final : p.retryable e = true → p.maxAttempts ≤ n) : Retried p attempt n s [s] (.error e) s'
  | again {n : ℕ} {s s' t : σ} {starts : List σ} {e : ε} {r : Except ε α}
      (tried : attempt s = (.error e, s')) (retryable : p.retryable e = true)
      (more : n < p.maxAttempts) (rest : Retried p attempt (n + 1) (p.pause e n s') starts r t) :
      Retried p attempt n s (s :: starts) r t

/-- The loop over the attempts, when `left` more may follow the `n`-th. -/
def Policy.runFrom (p : Policy σ ε) (attempt : σ → Except ε α × σ) : ℕ → ℕ → σ → Except ε α × σ
  | 0, _, s => attempt s
  | left + 1, n, s =>
    match attempt s with
    | (.ok a, s') => (.ok a, s')
    | (.error e, s') =>
      if p.retryable e then p.runFrom attempt left (n + 1) (p.pause e n s') else (.error e, s')

def Policy.run (p : Policy σ ε) (attempt : σ → Except ε α × σ) (s : σ) : Except ε α × σ :=
  p.runFrom attempt (p.maxAttempts - 1) 1 s

variable {p : Policy σ ε} {attempt : σ → Except ε α × σ}

theorem Policy.runFrom_retried (left n : ℕ) (h : p.maxAttempts ≤ n + left)
    (hn : left = 0 ∨ n + left ≤ p.maxAttempts) (s : σ) :
    ∃ starts, Retried p attempt n s starts (p.runFrom attempt left n s).1
      (p.runFrom attempt left n s).2 := by
  induction left generalizing n s with
  | zero =>
    simp only [runFrom]
    rcases htried : attempt s with ⟨e | a, s'⟩
    · exact ⟨[s], .raised htried (fun _ => h)⟩
    · exact ⟨[s], .returned htried⟩
  | succ left ih =>
    simp only [runFrom]
    rcases htried : attempt s with ⟨e | a, s'⟩
    · by_cases hr : p.retryable e = true
      · simp only [hr, if_true]
        obtain ⟨starts, hrest⟩ := ih (n + 1) (by omega) (by omega) (p.pause e n s')
        exact ⟨s :: starts, .again htried hr (by omega) hrest⟩
      · simp only [if_neg hr]
        exact ⟨[s], .raised htried (fun h => absurd h hr)⟩
    · exact ⟨[s], .returned htried⟩

theorem Policy.run_retried (s : σ) :
    ∃ starts, Retried p attempt 1 s starts (p.run attempt s).1 (p.run attempt s).2 :=
  runFrom_retried _ 1 (by omega) (by omega) s

variable {n : ℕ} {s t : σ} {starts : List σ} {r : Except ε α}

/-- What every attempt and every pause keeps is kept. -/
theorem Retried.invariant (h : Retried p attempt n s starts r t) (I : σ → Prop)
    (hattempt : ∀ s, I s → I (attempt s).2)
    (hpause : ∀ e n s, I s → I (p.pause e n s)) (hs : I s) : I t ∧ ∀ s' ∈ starts, I s' := by
  induction h with
  | returned tried | raised tried =>
    have hkept := hattempt _ hs
    rw [tried] at hkept
    exact ⟨hkept, by simpa using hs⟩
  | again tried _ _ _ ih =>
    have hkept := hattempt _ hs
    rw [tried] at hkept
    obtain ⟨ht, hrest⟩ := ih (hpause _ _ _ hkept)
    exact ⟨ht, by simpa using ⟨hs, hrest⟩⟩

/-- There is one attempt or more, and no more than are left. -/
theorem Retried.length_bounds (h : Retried p attempt n s starts r t) (hn : n ≤ p.maxAttempts) :
    1 ≤ starts.length ∧ starts.length + n ≤ p.maxAttempts + 1 := by
  induction h with
  | returned | raised =>
    rw [List.length_singleton]
    omega
  | again _ _ more _ ih =>
    have hrest := ih more
    rw [List.length_cons]
    omega

/-- The last attempt tells how the call ends, and every other one failed in a way that is worth
another. -/
theorem Retried.last (h : Retried p attempt n s starts r t) :
    ∃ earlier last, starts = earlier ++ [last] ∧ attempt last = (r, t) ∧
      ∀ s' ∈ earlier, ∃ e, (attempt s').1 = .error e ∧ p.retryable e = true := by
  induction h with
  | @returned n s s' a tried => exact ⟨[], s, rfl, tried, by simp⟩
  | @raised n s s' e tried => exact ⟨[], s, rfl, tried, by simp⟩
  | @again n s s' t starts e r tried retryable more rest ih =>
    obtain ⟨earlier, last, rfl, hlast, hearlier⟩ := ih
    refine ⟨s :: earlier, last, rfl, hlast, fun s₀ hs₀ => ?_⟩
    rcases List.mem_cons.mp hs₀ with rfl | hs₀
    · exact ⟨e, by rw [tried], retryable⟩
    · exact hearlier s₀ hs₀

/-- 1 for a call that returned. -/
def returnedCount : Except ε α → ℕ
  | .ok _ => 1
  | .error _ => 0

/-- Two counts that move together on every attempt, but for `k` when it returns, do so over the
whole call. -/
theorem Retried.counts (h : Retried p attempt n s starts r t) (made unheard : σ → ℕ) (k : ℕ)
    (hattempt : ∀ s, made (attempt s).2 + unheard s =
      made s + unheard (attempt s).2 + k * returnedCount (attempt s).1)
    (hpause : ∀ e n s, made (p.pause e n s) = made s ∧ unheard (p.pause e n s) = unheard s) :
    made t + unheard s = made s + unheard t + k * returnedCount r := by
  induction h with
  | @returned n s s' a tried | @raised n s s' e tried =>
    have hone := hattempt s
    rw [tried] at hone
    exact hone
  | @again n s s' t starts e r tried retryable more rest ih =>
    have hone := hattempt s
    obtain ⟨hmade, hunheard⟩ := hpause e n s'
    rw [tried] at hone
    rw [hmade, hunheard] at ih
    simp only [returnedCount, Nat.mul_zero] at hone
    omega

/-! What becomes of the attempts at the other end. -/

/-- An attempt is refused or does not arrive, or it is carried out and its answer is lost, or it
is carried out and answered. -/
inductive Fate where
  | refused
  | lost
  | answered
deriving DecidableEq, Repr

end GwsMigrator.Retries
