import Mathlib.Algebra.Order.Monoid.Unbundled.Basic
import Mathlib.Data.List.Count

/-!
# Fixed windows that are reset late

A budget of `limit` charges for each window of length `length`. A window begins with the first
charge that is tried when the one before it is over. In any interval of the window's length at
most `2 * limit` charges go through, since it meets at most two windows.
-/

/-- When the window began and how much was charged to it. -/
structure FixedWindow (τ : Type) where
  start : τ
  count : Nat

namespace FixedWindow

variable {τ : Type} [Add τ] [LinearOrder τ] {limit : Nat} {length clock now : τ}
  {w : FixedWindow τ} {log : List τ}

/-- The window at `now`. -/
def roll (length : τ) (w : FixedWindow τ) (now : τ) : FixedWindow τ :=
  if w.start + length ≤ now then { start := now, count := 0 } else w

/-- Charge it, if it has room. -/
def charge (limit : Nat) (length : τ) (w : FixedWindow τ) (now : τ) : FixedWindow τ × Bool :=
  let w := w.roll length now
  if limit ≤ w.count then (w, false) else ({ w with count := w.count + 1 }, true)

theorem roll_of_over (h : w.start + length ≤ now) :
    w.roll length now = { start := now, count := 0 } := if_pos h

theorem roll_of_running (h : ¬ w.start + length ≤ now) : w.roll length now = w := if_neg h

theorem charge_of_full (h : limit ≤ (w.roll length now).count) :
    w.charge limit length now = (w.roll length now, false) := if_pos h

theorem charge_of_room (h : ¬ limit ≤ (w.roll length now).count) :
    w.charge limit length now =
      ({ w.roll length now with count := (w.roll length now).count + 1 }, true) := if_neg h

/-- The charges of an interval. -/
def within (length a : τ) (log : List τ) : Nat :=
  log.countP fun t => decide (a ≤ t ∧ t < a + length)

/-- The charges that went through, the newest first, up to the time `clock`. -/
structure Tracks (limit : Nat) (length : τ) (w : FixedWindow τ) (log : List τ) (clock : τ) :
    Prop where
  started : w.start ≤ clock
  charged : ∀ t ∈ log, t ≤ clock
  counted : w.count ≤ log.length
  room : w.count ≤ limit
  current : ∀ t ∈ log.take w.count, w.start ≤ t
  past : ∀ t ∈ log.drop w.count, t ≤ w.start
  /-- An interval that reaches into the window meets one window before it. -/
  before : ∀ a, w.start < a + length →
    (log.drop w.count).countP (fun t => decide (a ≤ t)) ≤ limit
  bounded : ∀ a, within length a log ≤ 2 * limit

/-- It is refused when the window is full. -/
theorem charge_eq_false_iff :
    (w.charge limit length now).2 = false ↔ limit ≤ (w.roll length now).count := by
  by_cases hfull : limit ≤ (w.roll length now).count
  · rw [charge_of_full hfull]
    exact iff_of_true rfl hfull
  · rw [charge_of_room hfull]
    exact iff_of_false (by simp) hfull

theorem tracks_new (now : τ) : Tracks limit length { start := now, count := 0 } [] now where
  started := le_refl now
  charged t ht := absurd ht (by simp)
  counted := Nat.zero_le _
  room := Nat.zero_le _
  current t ht := absurd ht (by simp)
  past t ht := absurd ht (by simp)
  before a _ := Nat.zero_le _
  bounded a := Nat.zero_le _

theorem Tracks.wait (h : Tracks limit length w log clock) (hle : clock ≤ now) :
    Tracks limit length w log now :=
  { h with started := h.started.trans hle, charged := fun t ht => (h.charged t ht).trans hle }

/-- The charges of an interval that reaches past the beginning of the window. -/
theorem Tracks.within_le (h : Tracks limit length w log clock) {a : τ}
    (ha : w.start < a + length) : within length a log ≤ limit + w.count := by
  have hsplit : within length a log =
      within length a (log.take w.count) + within length a (log.drop w.count) := by
    rw [within, within, within, ← List.countP_append, List.take_append_drop]
  have hnew : within length a (log.take w.count) ≤ w.count :=
    List.countP_le_length.trans (List.length_take_le _ _)
  have hold : within length a (log.drop w.count) ≤ limit := by
    refine (List.countP_mono_left fun t _ ht => ?_).trans (h.before a ha)
    exact decide_eq_true (of_decide_eq_true ht).1
  omega

variable [AddRightMono τ]

/-- A new window begins. -/
theorem Tracks.roll (h : Tracks limit length w log clock) (hle : clock ≤ now) :
    Tracks limit length (w.roll length now) log now := by
  by_cases hover : w.start + length ≤ now
  · rw [roll_of_over hover]
    refine ⟨le_refl now, fun t ht => (h.charged t ht).trans hle, Nat.zero_le _, Nat.zero_le _,
      fun t ht => absurd ht (by simp), fun t ht => (h.charged t ht).trans hle, fun a ha => ?_,
      h.bounded⟩
    -- What came before the old window is out of reach.
    have hstart : w.start < a := by
      by_contra hnot
      have hmono := add_le_add_left (not_lt.mp hnot) length
      exact absurd (ha.trans_le (hmono.trans hover)) (lt_irrefl _)
    have hsplit : log.countP (fun t => decide (a ≤ t)) =
        (log.take w.count).countP (fun t => decide (a ≤ t)) +
          (log.drop w.count).countP (fun t => decide (a ≤ t)) := by
      rw [← List.countP_append, List.take_append_drop]
    have hnew : (log.take w.count).countP (fun t => decide (a ≤ t)) ≤ w.count :=
      List.countP_le_length.trans (List.length_take_le _ _)
    have hold : (log.drop w.count).countP (fun t => decide (a ≤ t)) = 0 := by
      refine List.countP_eq_zero.mpr fun t ht hat => ?_
      exact absurd (hstart.trans_le (of_decide_eq_true hat)) (not_lt.mpr (h.past t ht))
    have hroom := h.room
    show log.countP _ ≤ limit
    omega
  · rw [roll_of_running hover]
    exact h.wait hle

/-- A charge is tried. -/
theorem Tracks.charge (h : Tracks limit length w log clock) (hle : clock ≤ now) :
    Tracks limit length (w.charge limit length now).1
      (if (w.charge limit length now).2 then now :: log else log) now := by
  have hroll := h.roll hle
  by_cases hfull : limit ≤ (w.roll length now).count
  · rw [charge_of_full hfull]
    exact hroll
  · rw [charge_of_room hfull]
    refine ⟨hroll.started, ?_, ?_, Nat.lt_of_not_le hfull, ?_, hroll.past, hroll.before,
      fun a => ?_⟩
    · rintro t (_ | ⟨_, ht⟩)
      · exact le_refl now
      · exact hroll.charged t ht
    · exact Nat.succ_le_succ hroll.counted
    · rintro t (_ | ⟨_, ht⟩)
      · exact hroll.started
      · exact hroll.current t ht
    · show within length a (now :: log) ≤ 2 * limit
      by_cases hin : a ≤ now ∧ now < a + length
      · have hall := hroll.within_le (hroll.started.trans_lt hin.2)
        rw [within, List.countP_cons, if_pos (decide_eq_true hin), ← within]
        omega
      · rw [within, List.countP_cons, if_neg (fun h => hin (of_decide_eq_true h)), Nat.add_zero]
        exact hroll.bounded a

end FixedWindow
