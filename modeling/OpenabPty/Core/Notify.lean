/-!
# A notification cell with one waiter (`tokio::sync::Notify`)

`notify_one` wakes the task that waits, or stores one permit for the next one that will;
`notify_waiters` wakes the task that waits, or whose future exists already, and stores
nothing. A future that is polled for the first time takes the permit if there is one, and
otherwise registers its task.
-/

/-- The permit, how often `notify_waiters` was called, and whether a task waits. -/
structure Notify where
  permit : Bool
  waitersCalls : Nat
  waiting : Bool
  deriving DecidableEq, Repr

namespace Notify

def new : Notify := { permit := false, waitersCalls := 0, waiting := false }

def notifyOne (n : Notify) : Notify :=
  if n.waiting then { n with waiting := false } else { n with permit := true }

def notifyWaiters (n : Notify) : Notify :=
  { n with waitersCalls := n.waitersCalls + 1, waiting := false }

/-- The first poll of a future that was created after `seen` calls of `notify_waiters`: whether
it is ready. -/
def poll (n : Notify) (seen : Nat) : Notify × Bool :=
  if n.permit then ({ n with permit := false }, true)
  else if n.waitersCalls ≠ seen then (n, true)
  else ({ n with waiting := true }, false)

variable {n : Notify} {seen : Nat}

/-- After `notify_one` nobody waits any more, or a permit is stored. -/
theorem notifyOne_wakes (n : Notify) : n.notifyOne.waiting = false := by
  unfold notifyOne
  split
  · rfl
  · rename_i h
    exact Bool.eq_false_iff.mpr h

theorem notifyOne_permit (h : n.waiting = false) : n.notifyOne.permit = true := by
  rw [notifyOne, h]
  rfl

/-- A task that goes to sleep has found no permit. -/
theorem poll_eq_false (h : (n.poll seen).2 = false) :
    n.permit = false ∧ (n.poll seen).1 = { n with waiting := true } := by
  unfold poll at h ⊢
  split
  · rename_i hpermit
    rw [if_pos hpermit] at h
    cases h
  · rename_i hpermit
    rw [if_neg hpermit] at h
    split
    · rename_i hcalls
      rw [if_pos hcalls] at h
      cases h
    · exact ⟨Bool.eq_false_iff.mpr hpermit, rfl⟩

/-- A task that need not sleep is not registered by its poll. -/
theorem poll_eq_true (h : (n.poll seen).2 = true) : (n.poll seen).1.waiting = n.waiting := by
  unfold poll at h ⊢
  split
  · rfl
  · rename_i hpermit
    rw [if_neg hpermit] at h
    split
    · rfl
    · rename_i hcalls
      rw [if_neg hcalls] at h
      cases h

end Notify
