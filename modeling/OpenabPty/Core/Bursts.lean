import OpenabPty.Core.FixedWindow

/-!
# Bursts in a fixed window

Hits are counted in a window that is reset late, and a burst is reported, and the window reset, at
the hit that makes `limit`. What is reported is a burst: the interval of the window's length that
ends there has `limit` hits. Not every such interval is reported, since it may meet two windows,
but one with `2 * limit - 1` hits is.
-/

namespace FixedWindow

variable {τ : Type} [LinearOrder τ] {limit hits : Nat} {length first clock now : τ}
  {w : FixedWindow τ} {log : List τ}

/-- The window counts hits of the log, all of which came after it began. -/
structure Counts (w : FixedWindow τ) (log : List τ) (clock : τ) : Prop where
  started : w.start ≤ clock
  counted : w.count ≤ log.countP fun t => decide (w.start ≤ t)

theorem counts_new (log : List τ) (now : τ) : Counts { start := now, count := 0 } log now :=
  ⟨le_refl now, Nat.zero_le _⟩

theorem Counts.wait (h : Counts w log clock) (hle : clock ≤ now) : Counts w log now :=
  ⟨h.started.trans hle, h.counted⟩

/-- The hit at `now` is counted, too. -/
theorem Counts.succ_le (h : Counts w log now) :
    w.count + 1 ≤ (now :: log).countP fun t => decide (w.start ≤ t) := by
  rw [List.countP_cons, if_pos (decide_eq_true h.started)]
  exact Nat.succ_le_succ h.counted

/-- Of `hits` hits since `first` none was reported: they are all in the window, or they are split
between it and one before it that had room for `limit - 1` of them. -/
structure Unreported (limit : Nat) (first : τ) (hits : Nat) (w : FixedWindow τ) : Prop where
  room : w.count < limit
  split : hits ≤ w.count ∨ first ≤ w.start ∧ hits ≤ w.count + (limit - 1)

theorem Unreported.hits_le (h : Unreported limit first hits w) : hits ≤ 2 * limit - 2 := by
  have hroom := h.room
  rcases h.split with hwhole | ⟨-, hsplit⟩
  · omega
  · omega

variable [Add τ]

/-- Count a hit, and tell whether it makes a burst. -/
def hit (limit : Nat) (length : τ) (w : FixedWindow τ) (now : τ) : FixedWindow τ × Bool :=
  let w := w.roll length now
  if limit ≤ w.count + 1 then ({ start := now, count := 0 }, true)
  else ({ w with count := w.count + 1 }, false)

theorem hit_of_burst (h : limit ≤ (w.roll length now).count + 1) :
    w.hit limit length now = ({ start := now, count := 0 }, true) := if_pos h

theorem hit_of_room (h : ¬ limit ≤ (w.roll length now).count + 1) :
    w.hit limit length now =
      ({ w.roll length now with count := (w.roll length now).count + 1 }, false) := if_neg h

/-- A hit leaves room for another one. -/
theorem hit_count_lt (hlimit : 0 < limit) : (w.hit limit length now).1.count < limit := by
  by_cases hburst : limit ≤ (w.roll length now).count + 1
  · rw [hit_of_burst hburst]
    exact hlimit
  · rw [hit_of_room hburst]
    exact Nat.lt_of_not_le hburst

theorem Counts.roll (h : Counts w log clock) (hle : clock ≤ now) :
    Counts (w.roll length now) log now := by
  by_cases hover : w.start + length ≤ now
  · rw [roll_of_over hover]
    exact counts_new log now
  · rw [roll_of_running hover]
    exact h.wait hle

theorem Counts.hit (h : Counts w log clock) (hle : clock ≤ now) :
    Counts (w.hit limit length now).1 (now :: log) now := by
  have hroll : Counts (w.roll length now) log now := h.roll hle
  by_cases hburst : limit ≤ (w.roll length now).count + 1
  · rw [hit_of_burst hburst]
    exact counts_new _ now
  · rw [hit_of_room hburst]
    exact ⟨hroll.started, hroll.succ_le⟩

/-- A window that has just been rolled reaches past now. -/
theorem lt_roll_end (hlength : now < now + length) :
    now < (w.roll length now).start + length := by
  by_cases hover : w.start + length ≤ now
  · rw [roll_of_over hover]
    exact hlength
  · rw [roll_of_running hover]
    exact lt_of_not_ge hover

variable [AddRightMono τ]

/-- What is reported is a burst. -/
theorem Counts.burst (h : Counts w log clock) (hlog : ∀ t ∈ log, t ≤ clock) (hle : clock ≤ now)
    (hlength : now < now + length) (hburst : (w.hit limit length now).2 = true) :
    limit ≤ (now :: log).countP fun t => decide (now < t + length ∧ t ≤ now) := by
  have hroll : Counts (w.roll length now) log now := h.roll hle
  by_cases hmakes : limit ≤ (w.roll length now).count + 1
  · have hend : now < (w.roll length now).start + length := lt_roll_end hlength
    calc limit ≤ (w.roll length now).count + 1 := hmakes
      _ ≤ _ := hroll.succ_le
      _ ≤ _ := List.countP_mono_left fun t ht hstarted => ?_
    have hstart : (w.roll length now).start ≤ t := of_decide_eq_true hstarted
    have hpast : t ≤ now := by
      cases ht with
      | head => exact le_refl now
      | tail _ ht => exact (hlog t ht).trans hle
    exact decide_eq_true ⟨hend.trans_le (add_le_add_left hstart length), hpast⟩
  · rw [hit_of_room hmakes] at hburst
    cases hburst

theorem Unreported.hit (h : Unreported limit first hits w) (hfirst : first ≤ now)
    (hspan : now < first + length) (hsilent : (w.hit limit length now).2 = false) :
    Unreported limit first (hits + 1) (w.hit limit length now).1 := by
  have hroom := h.room
  by_cases hburst : limit ≤ (w.roll length now).count + 1
  · rw [hit_of_burst hburst] at hsilent
    cases hsilent
  · rw [hit_of_room hburst]
    refine ⟨Nat.lt_of_not_le hburst, ?_⟩
    by_cases hover : w.start + length ≤ now
    · -- A second window begins within the span: the first one began before it.
      rw [roll_of_over hover]
      have hbefore : ¬ first ≤ w.start := by
        intro hstart
        have hreach : first + length ≤ now := (add_le_add_left hstart length).trans hover
        exact absurd hspan (not_lt.mpr hreach)
      rcases h.split with hwhole | ⟨hstart, -⟩
      · refine .inr ⟨hfirst, ?_⟩
        show hits + 1 ≤ 0 + 1 + (limit - 1)
        omega
      · exact absurd hstart hbefore
    · rw [roll_of_running hover]
      rcases h.split with hwhole | ⟨hstart, hsplit⟩
      · exact .inl (Nat.succ_le_succ hwhole)
      · refine .inr ⟨hstart, ?_⟩
        show hits + 1 ≤ w.count + 1 + (limit - 1)
        omega

end FixedWindow
