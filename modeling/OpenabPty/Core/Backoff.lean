import Mathlib.Algebra.Order.Ring.Nat

/-!
# Attempts under a growing delay

The `n`-th attempt in a row arms a delay that grows with `n` up to a cap, and the next attempt
waits for it. What the delays fall short of the cap is a debt that a history of attempts runs up
once, so attempts come at most one a `cap`, but for the debt. A history may be forgotten, and its
debt run up again, by one that was idle for as long as the debt.
-/

/-- The delays, and what the ones after the first `n` fall short of the cap in all. -/
structure Backoff where
  cap : Nat
  delay : Nat → Nat
  debt : Nat → Nat
  delay_le : ∀ n, delay n ≤ cap
  pays : ∀ n, cap + debt (n + 1) = delay (n + 1) + debt n

namespace Backoff

variable {b : Backoff} {since hits n horizon now length : Nat}

theorem debt_succ_le (b : Backoff) (n : Nat) : b.debt (n + 1) ≤ b.debt n := by
  have hpays := b.pays n
  have hdelay := b.delay_le (n + 1)
  omega

theorem debt_le (b : Backoff) (n : Nat) : b.debt n ≤ b.debt 0 := by
  induction n with
  | zero => exact Nat.le_refl _
  | succ n ih => exact Nat.le_trans (b.debt_succ_le n) ih

/-- After `hits` attempts from `since` on, the last of them the `n`-th of its history, the next one
may come at `horizon`. -/
def Paid (b : Backoff) (since hits n horizon : Nat) : Prop :=
  hits = 0 ∨ b.cap * hits + b.debt n + since ≤ b.debt 0 + horizon

theorem Paid.later (h : b.Paid since hits n horizon) (hle : horizon ≤ now) :
    b.Paid since hits n now := by
  rcases h with hnone | hsome
  · exact .inl hnone
  · exact .inr (Nat.le_trans hsome (Nat.add_le_add_left hle _))

/-- An attempt. -/
theorem Paid.hit (h : b.Paid since hits n horizon) (hnow : horizon ≤ now) (hsince : since ≤ now) :
    b.Paid since (hits + 1) (n + 1) (now + b.delay (n + 1)) := by
  have hpays := b.pays n
  refine .inr ?_
  rw [Nat.mul_succ]
  rcases h with hnone | hsome
  · have hdebt := b.debt_le n
    rw [hnone, Nat.mul_zero]
    omega
  · omega

/-- An attempt before `since`. -/
theorem Paid.skip (h : b.Paid since hits n horizon) (hnow : horizon ≤ now) :
    b.Paid since hits (n + 1) (now + b.delay (n + 1)) := by
  have hdebt := b.debt_succ_le n
  rcases h with hnone | hsome
  · exact .inl hnone
  · refine .inr ?_
    omega

/-- A history is forgotten. -/
theorem Paid.forget (h : b.Paid since hits n horizon) (hidle : horizon + b.debt 0 ≤ now) :
    b.Paid since hits 0 now := by
  rcases h with hnone | hsome
  · exact .inl hnone
  · refine .inr ?_
    omega

/-- The attempts of an interval. -/
theorem Paid.hits_le (h : b.Paid since hits n horizon) (hwithin : horizon ≤ since + length) :
    b.cap * (hits + 1) ≤ b.cap + b.debt 0 + length := by
  rw [Nat.mul_succ]
  rcases h with hnone | hsome
  · rw [hnone, Nat.mul_zero]
    omega
  · omega

end Backoff
